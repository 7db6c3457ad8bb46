import VectorMotion.Proofs.Trim.Pieces
import VectorMotion.Geometry.Reversal

/-!
# Joined outlines

Outlines that are trimmed together may as well be one outline, put together from them, as long as
every one of them begins with a move. Its segments are those of all of them in turn; only the
subpaths have other numbers. A number is compared with the one before it and with nothing else, and
a move separates the outlines, so what is drawn of each is the same.

The window must not run past the end. If it does, the joined outline is drawn span by span, and the
outlines one by one.
-/

namespace VectorMotion

variable {P : Type} [Scalar P]

namespace Path

/-- Numbered segments with their numbers raised. -/
def renumbered (shift : Nat) (traced : List (Nat × Segment P)) : List (Nat × Segment P) :=
  traced.map (Prod.map (shift + ·) id)

/-- The number that a trace begins with is in front of all its numbers. -/
theorem trace_renumbered (origin current : Vec2 P) (shift subpath : Nat) (path : Path P) :
    traceFrom origin current true (shift + subpath) path =
      renumbered shift (traceFrom origin current true subpath path) := by
  induction path generalizing origin current subpath with
  | nil => rfl
  | cons element rest inductionHypothesis =>
    cases element with
    | move point =>
      simp only [traceFrom, ↓reduceIte, Nat.add_assoc, inductionHypothesis]
    | close =>
      simp only [traceFrom, inductionHypothesis]
      split <;> rfl
    | _ =>
      simp only [traceFrom, inductionHypothesis]
      rfl

/-- A move forgets where a path was, and counts on. -/
theorem trace_of_move (origin current : Vec2 P) (subpath : Nat) (path : Path P)
    (starts : path.startsWithMove = true) :
    traceFrom origin current true subpath path = renumbered (subpath + 1) path.trace := by
  cases path with
  | nil => cases starts
  | cons element rest =>
    cases element with
    | move point => exact trace_renumbered point point (subpath + 1) 0 rest
    | _ => cases starts

/-- A path that has been begun ends on some subpath, which is the last one, and from there a path
that begins with a move is traced. -/
theorem trace_from_append (origin current : Vec2 P) (subpath : Nat) (front : Path P) :
    ∃ last, subpath ≤ last ∧
      (∀ traced ∈ traceFrom origin current true subpath front, traced.1 ≤ last) ∧
      ∀ back : Path P, back.startsWithMove = true →
        traceFrom origin current true subpath (front ++ back) =
          traceFrom origin current true subpath front ++ renumbered (last + 1) back.trace := by
  induction front generalizing origin current subpath with
  | nil => exact ⟨subpath, le_rfl, by simp [traceFrom], trace_of_move origin current subpath⟩
  | cons element rest inductionHypothesis =>
    cases element with
    | move point =>
      obtain ⟨last, further, most, continued⟩ := inductionHypothesis point point (subpath + 1)
      exact ⟨last, by omega, most, continued⟩
    | close =>
      obtain ⟨last, further, most, continued⟩ := inductionHypothesis origin origin subpath
      refine ⟨last, further, fun traced member => ?_, fun back starts => ?_⟩
      · rcases List.mem_append.mp member with edge | behind
        · split at edge
          · cases edge
          · rw [List.mem_singleton.mp edge]
            exact further
        · exact most traced behind
      · simp only [List.cons_append, traceFrom, continued back starts, List.append_assoc]
    | line point | quad _ point | cubic _ _ point =>
      obtain ⟨last, further, most, continued⟩ := inductionHypothesis origin point subpath
      exact ⟨last, further, List.forall_mem_cons.mpr ⟨further, most⟩, fun back starts =>
        congrArg (_ :: ·) (continued back starts)⟩

/-- What begins with a move is traced behind a path as it is alone, with numbers behind those of the
path. -/
theorem trace_append (front : Path P) (begins : front.startsWithMove = true) :
    ∃ shift, (∀ traced ∈ front.trace, traced.1 < shift) ∧
      ∀ back : Path P, back.startsWithMove = true →
        (front ++ back).trace = front.trace ++ renumbered shift back.trace := by
  cases front with
  | nil => cases begins
  | cons element rest =>
    cases element with
    | move point =>
      obtain ⟨last, -, most, continued⟩ := trace_from_append point point 0 rest
      exact ⟨last + 1, fun traced member => Nat.lt_succ_of_le (most traced member), continued⟩
    | _ => cases begins

end Path

namespace Trim

section Numbers

/-- Measured segments with the numbers of their subpaths raised. -/
def renumbered (shift : Nat) (segments : List (Measured P)) : List (Measured P) :=
  segments.map fun measured => { measured with subpath := shift + measured.subpath }

/-- A cursor with its number raised. -/
def Cursor.renumbered (shift : Nat) (cursor : Cursor P) : Cursor P :=
  cursor.map (Prod.map (shift + ·) id)

/-- Only whether numbers are the same counts for what is drawn. -/
theorem drawn_renumbered (shift : Nat) (cursor : Cursor P) (list : List (Nat × Segment P)) :
    drawn (cursor.renumbered shift) (Path.renumbered shift list) = drawn cursor list := by
  induction list generalizing cursor with
  | nil => rfl
  | cons first rest inductionHypothesis =>
    have same : continues (cursor.renumbered shift) (shift + first.1) first.2.start =
        continues cursor first.1 first.2.start := by
      rcases cursor with _ | ⟨last, point⟩
      · rfl
      · have numbers : (shift + last == shift + first.1) = (last == first.1) := by
          rw [Bool.eq_iff_iff, beq_iff_eq, beq_iff_eq, Nat.add_left_cancel_iff]
        simp [continues, Cursor.renumbered, numbers]
    have next := inductionHypothesis (some (first.1, first.2.finish))
    simp only [Path.renumbered, List.map_cons, Prod.map, id, drawn, same]
    exact congrArg (fun rest => _ ++ _ :: rest) next

/-- Behind a cursor on another subpath, pieces are drawn as they are alone. -/
theorem drawn_elsewhere (cursor : Cursor P) (list : List (Nat × Segment P))
    (elsewhere : ∀ piece ∈ list, ∀ point, cursor ≠ some (piece.1, point)) :
    drawn cursor list = drawn none list := by
  cases list with
  | nil => rfl
  | cons first rest =>
    have apart : continues cursor first.1 first.2.start = false := by
      rcases cursor with _ | ⟨last, point⟩
      · rfl
      · have other : last ≠ first.1 := by
          rintro rfl
          exact elsewhere first List.mem_cons_self point rfl
        simp [continues, other]
    rw [drawn, drawn, apart]
    rfl

variable [Measure P]

/-- The segments of joined paths are those of the first and, renumbered, those of the second. -/
theorem measure_append {front back : Path P} {shift : Nat}
    (traced : (front ++ back).trace = front.trace ++ Path.renumbered shift back.trace) :
    measure (front ++ back) = measure front ++ renumbered shift (measure back) := by
  simp only [measure, traced, List.map_append, List.filter_append, Path.renumbered, renumbered,
    List.map_map, List.filter_map, Function.comp_def, Prod.map, id]

/-- Pieces do not depend on the numbers of subpaths but for carrying them. -/
theorem pieces_renumbered (low high covered : P) (shift : Nat) (segments : List (Measured P)) :
    pieces low high covered (renumbered shift segments) =
      Path.renumbered shift (pieces low high covered segments) := by
  induction segments generalizing covered with
  | nil => rfl
  | cons measured rest inductionHypothesis =>
    have tail := inductionHypothesis (covered + measured.length)
    simp only [renumbered, List.map_cons, pieces, Path.renumbered, List.map_append] at tail ⊢
    rw [tail]
    congr 1
    simp only [piece?]
    split_ifs <;> rfl

/-- Every piece is numbered as a segment that has been measured. -/
theorem pieces_numbered (low high covered : P) (segments : List (Measured P))
    {piece : Nat × Segment P} (member : piece ∈ pieces low high covered segments) :
    ∃ measured ∈ segments, piece.1 = measured.subpath := by
  induction segments generalizing covered with
  | nil => cases member
  | cons measured rest inductionHypothesis =>
    rcases List.mem_append.mp member with first | behind
    · obtain ⟨cut, -, rfl⟩ := Option.map_eq_some_iff.mp (Option.mem_toList.mp first)
      exact ⟨measured, List.mem_cons_self, rfl⟩
    · obtain ⟨other, inside, same⟩ := inductionHypothesis _ behind
      exact ⟨other, List.mem_cons_of_mem _ inside, same⟩

/-- A segment that counts has the number of the subpath that it comes from. -/
theorem measure_numbered (path : Path P) {measured : Measured P}
    (member : measured ∈ measure path) :
    ∃ traced ∈ path.trace, traced.1 = measured.subpath := by
  obtain ⟨traced, inside, rfl⟩ := List.mem_map.mp (List.mem_of_mem_filter member)
  exact ⟨traced, inside, rfl⟩

end Numbers

section Joining

variable [Measure ℝ]

/-- The pieces of a joined outline are drawn as those of its two parts. -/
theorem drawn_joined (low high base : ℝ) {front back : Path ℝ}
    (frontStarts : front.startsWithMove = true) (backStarts : back.startsWithMove = true) :
    totalLength (measure (front ++ back)) =
        totalLength (measure front) + totalLength (measure back) ∧
      drawn none (pieces low high base (measure (front ++ back))) =
        drawn none (pieces low high base (measure front)) ++
          drawn none (pieces low high (base + totalLength (measure front)) (measure back)) := by
  obtain ⟨shift, before, traced⟩ := Path.trace_append front frontStarts
  have together := measure_append (traced back backStarts)
  constructor
  · rw [together, total_length, total_length, total_length, List.map_append, List.sum_append,
      renumbered, List.map_map]
    rfl
  · set first := pieces low high base (measure front) with firstPieces
    set second := pieces low high (base + totalLength (measure front)) (measure back)
    have elsewhere : ∀ piece ∈ Path.renumbered shift second,
        ∀ point, cursorAfter none first ≠ some (piece.1, point) := by
      intro piece member point same
      obtain ⟨own, -, rfl⟩ := List.mem_map.mp member
      rcases cursor_after none first with none | ⟨last, inside, reached⟩
      · rw [none] at same
        cases same
      · obtain ⟨measured, counted, number⟩ := pieces_numbered _ _ _ _ inside
        obtain ⟨segment, there, numbered⟩ := measure_numbered front counted
        have below := before segment there
        rw [reached, Option.some.injEq, Prod.mk.injEq] at same
        have reachedNumber : last.1 = shift + own.1 := same.1
        omega
    rw [together, pieces_append, pieces_renumbered, ← firstPieces, drawn_append,
      drawn_elsewhere _ _ elsewhere]
    exact congrArg (_ ++ ·) (drawn_renumbered shift none second)

/-- A joined outline is as long as its parts together, and keeps what they keep. -/
theorem joined_cut (low high base : ℝ) (group : List (Path ℝ))
    (starts : ∀ outline ∈ group, outline.startsWithMove = true) :
    totalLength (measure group.flatten) = combined group ∧
      drawn none (pieces low high base (measure group.flatten)) =
        (cutAll [(low, high)] base (group.map measure)).flatten := by
  induction group generalizing base with
  | nil => exact ⟨total_length [], rfl⟩
  | cons first rest inductionHypothesis =>
    obtain ⟨firstStarts, restStarts⟩ := List.forall_mem_cons.mp starts
    obtain ⟨restTotal, restDrawn⟩ :=
      inductionHypothesis (base + totalLength (measure first)) restStarts
    rw [List.map_cons, cut_all_cons, List.flatten_cons, List.flatten_cons, List.flatMap_singleton,
      combined, List.map_cons, List.sum_cons, ← restDrawn]
    cases rest with
    | nil => simp [measure, Path.trace, Path.traceFrom, pieces, drawn]
    | cons second others =>
      have joinedStarts : Path.startsWithMove (second :: others).flatten = true := by
        have secondStarts := restStarts second List.mem_cons_self
        rw [List.flatten_cons]
        cases second with
        | nil => cases secondStarts
        | cons element _ => cases element <;> first | rfl | cases secondStarts
      obtain ⟨total, parts⟩ := drawn_joined low high base firstStarts joinedStarts
      exact ⟨total.trans (congrArg (_ + ·) restTotal), parts⟩

/-- Cutting outlines cuts the first of them, and then the others behind their length. -/
theorem cut_all_append (spans : List (ℝ × ℝ)) (base : ℝ) (front back : List (List (Measured ℝ))) :
    cutAll spans base (front ++ back) =
      cutAll spans base front ++ cutAll spans (base + (front.map totalLength).sum) back := by
  induction front generalizing base with
  | nil => simp [cutAll]
  | cons segments rest inductionHypothesis =>
    rw [List.cons_append, cutAll, cutAll, inductionHypothesis, List.map_cons, List.sum_cons,
      add_assoc, List.cons_append]

/-- Cutting gives one result for every outline. -/
theorem cut_all_length (spans : List (ℝ × ℝ)) (base : ℝ) (measured : List (List (Measured ℝ))) :
    (cutAll spans base measured).length = measured.length := by
  rw [cut_all_drawn, List.length_map, List.length_range]

/-- Groups of outlines are cut as the outlines that they make. -/
theorem grouped_cut (low high base : ℝ) (groups : List (List (Path ℝ)))
    (starts : ∀ group ∈ groups, ∀ outline ∈ group, outline.startsWithMove = true) :
    ∃ cuts : List (List (Path ℝ)), cuts.map List.length = groups.map List.length ∧
      cuts.flatten = cutAll [(low, high)] base (groups.flatten.map measure) ∧
      cuts.map List.flatten =
        cutAll [(low, high)] base (groups.map fun group => measure group.flatten) := by
  induction groups generalizing base with
  | nil => exact ⟨[], rfl, rfl, rfl⟩
  | cons group rest inductionHypothesis =>
    obtain ⟨groupStarts, restStarts⟩ := List.forall_mem_cons.mp starts
    obtain ⟨total, joined⟩ := joined_cut low high base group groupStarts
    obtain ⟨cuts, lengths, all, each⟩ := inductionHypothesis (base + combined group) restStarts
    have sum : ((group.map measure).map totalLength).sum = combined group := by
      rw [combined, List.map_map]
      rfl
    refine ⟨cutAll [(low, high)] base (group.map measure) :: cuts, ?_, ?_, ?_⟩
    · rw [List.map_cons, lengths, cut_all_length, List.length_map, List.map_cons]
    · rw [List.flatten_cons, all, List.flatten_cons, List.map_append, cut_all_append, sum]
    · rw [List.map_cons, each, List.map_cons, cut_all_cons, List.flatMap_singleton, total, ← joined]

/-- What a window that does not run past the end keeps of outlines, some of which are put together:
each group keeps what its outlines keep, joined. -/
theorem grouped_paths (groups : List (List (Path ℝ)))
    (starts : ∀ group ∈ groups, ∀ outline ∈ group, outline.startsWithMove = true)
    (start finish offset : ℝ)
    (unbroken : Int.fract (lower start finish + offset) +
      (upper start finish - lower start finish) ≤ 1) :
    ∃ cuts : List (List (Path ℝ)), cuts.map List.length = groups.map List.length ∧
      cuts.flatten = paths groups.flatten start finish offset ∧
      cuts.map List.flatten = paths (groups.map List.flatten) start finish offset := by
  have total : combined (groups.map List.flatten) = combined groups.flatten := by
    have each : ∀ group ∈ groups, totalLength (measure group.flatten) = combined group :=
      fun group member => (joined_cut 0 0 0 group (starts group member)).1
    rw [combined, List.map_map, Function.comp_def, List.map_congr_left each]
    simp only [combined, List.map_flatten, List.sum_flatten, List.map_map, Function.comp_def]
    rfl
  have nothing : ∃ cuts : List (List (Path ℝ)), cuts.map List.length = groups.map List.length ∧
      cuts.flatten = groups.flatten.map (fun _ => []) ∧
      cuts.map List.flatten = (groups.map List.flatten).map fun _ => [] := by
    refine ⟨groups.map (List.map fun _ => []), ?_, List.map_flatten.symm, ?_⟩
    · simp
    · simp
  rw [paths_exact, paths_exact, total]
  split_ifs
  · exact nothing
  · exact ⟨groups, rfl, rfl, rfl⟩
  · exact nothing
  · rw [spans_exact, if_pos unbroken, List.map_map]
    exact grouped_cut _ _ 0 groups starts

/-- What is kept of outlines, joined, is what is kept of the joined outline. -/
theorem joined_path (outlines : List (Path ℝ))
    (starts : ∀ outline ∈ outlines, outline.startsWithMove = true) (start finish offset : ℝ)
    (unbroken : Int.fract (lower start finish + offset) +
      (upper start finish - lower start finish) ≤ 1) :
    (paths outlines start finish offset).flatten = path outlines.flatten start finish offset := by
  obtain ⟨cuts, lengths, all, each⟩ := grouped_paths [outlines]
    (List.forall_mem_singleton.mpr starts) start finish offset unbroken
  rw [List.flatten_singleton] at all
  obtain ⟨cut, rfl⟩ : ∃ cut, cuts = [cut] := List.length_eq_one_iff.mp (by
    simpa using congrArg List.length lengths)
  rw [List.flatten_singleton] at all
  rw [List.map_singleton, List.map_singleton] at each
  rw [path, ← each, all]
  rfl

end Joining

end Trim

end VectorMotion
