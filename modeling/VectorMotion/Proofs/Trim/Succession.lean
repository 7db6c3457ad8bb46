import VectorMotion.Proofs.Trim.Parts

/-!
# Parts one after the other

The parts of an outline between two lengths follow each other without a gap in length: all of them
but the first begin where their segments begin, and all but the last end where those end. So parts
of parts are parts of the outline, and whether a part is drawn without a move is decided by its
segment and the one before.

What has been drawn can be traced again. The parts come back with other numbers for their subpaths,
which now tell apart what a move has separated. Drawn once more, they look the same.
-/

namespace VectorMotion.Trim

variable {low high covered : ℝ} {segments : List (Measured ℝ)}

section Order

/-- One part goes on where another has ended, at the border of two segments that are related. -/
structure Part.Follows (related : Measured ℝ → Measured ℝ → Prop) (first second : Part) : Prop where
  related : related first.measured second.measured
  ends : first.high = first.position + first.measured.length
  meets : first.high = second.low
  begins : second.low = second.position

/-- There is no part behind the upper length. -/
theorem parts_none (sound : ∀ measured ∈ segments, measured.Sound) (behind : high ≤ covered) :
    parts low high covered segments = [] := by
  induction segments generalizing covered with
  | nil => rfl
  | cons measured rest inductionHypothesis =>
    obtain ⟨first, others⟩ := List.forall_mem_cons.mp sound
    have apart : ¬ max covered low < min (covered + measured.length) high :=
      not_lt.mpr ((min_le_right _ _).trans (behind.trans (le_max_left _ _)))
    rw [parts, if_neg apart, List.nil_append, inductionHypothesis others]
    linarith [first.pos]

/-- If nothing is cut off in front, the first part begins with the first segment. -/
theorem parts_first (sound : ∀ measured ∈ segments, measured.Sound) (before : low ≤ covered) :
    ∀ part ∈ (parts low high covered segments).head?, covered < high ∧ part.low = covered ∧
      part.position = covered ∧ part.measured ∈ segments.head? := by
  intro part member
  cases segments with
  | nil => cases member
  | cons measured rest =>
    obtain ⟨first, others⟩ := List.forall_mem_cons.mp sound
    rw [parts, max_eq_left before] at member
    by_cases inside : covered < min (covered + measured.length) high
    · rw [if_pos inside] at member
      obtain rfl := Option.mem_some_iff.mp member
      exact ⟨inside.trans_le (min_le_right _ _), rfl, rfl, rfl⟩
    · have behind : high ≤ covered := by
        rcases min_le_iff.mp (not_lt.mp inside) with reached | behind
        · linarith [first.pos]
        · exact behind
      rw [if_neg inside, List.nil_append, parts_none others (by linarith [first.pos])] at member
      cases member

variable (low high covered) in
/-- The parts of segments that are related one to the next follow each other. -/
theorem parts_follow {related : Measured ℝ → Measured ℝ → Prop}
    (sound : ∀ measured ∈ segments, measured.Sound) (chain : segments.IsChain related) :
    (parts low high covered segments).IsChain (Part.Follows related) := by
  induction segments generalizing covered with
  | nil => exact .nil
  | cons measured rest inductionHypothesis =>
    obtain ⟨first, others⟩ := List.forall_mem_cons.mp sound
    obtain ⟨next, chained⟩ := List.isChain_cons.mp chain
    have behind := inductionHypothesis (covered + measured.length) others chained
    rw [parts]
    split
    case isFalse => exact behind
    case isTrue inside =>
      refine List.isChain_cons.mpr ⟨fun part member => ?_, behind⟩
      have begun : low ≤ covered + measured.length :=
        (le_max_right _ _).trans (inside.le.trans (min_le_left _ _))
      obtain ⟨reached, begins, position, there⟩ := parts_first others begun part member
      have ends : min (covered + measured.length) high = covered + measured.length :=
        min_eq_left reached.le
      exact ⟨next _ there, ends, ends.trans begins.symm, begins.trans position.symm⟩

variable (low high covered) in
/-- All parts lie within the window. -/
theorem parts_between (sound : ∀ measured ∈ segments, measured.Sound) :
    ∀ part ∈ parts low high covered segments, max covered low ≤ part.low ∧ part.high ≤ high := by
  induction segments generalizing covered with
  | nil => simp [parts]
  | cons measured rest inductionHypothesis =>
    obtain ⟨counts, others⟩ := List.forall_mem_cons.mp sound
    intro part member
    rcases List.mem_append.mp member with first | behind
    · split at first
      case isTrue =>
        rw [List.mem_singleton.mp first]
        exact ⟨le_rfl, min_le_right _ _⟩
      case isFalse => cases first
    · obtain ⟨begins, ends⟩ := inductionHypothesis _ others part behind
      have further : covered ≤ covered + measured.length := by linarith [counts.pos]
      exact ⟨(max_le_max_right low further).trans begins, ends⟩

variable (low high covered) in
/-- No part begins before the one in front of it has ended. -/
theorem parts_ordered (sound : ∀ measured ∈ segments, measured.Sound) :
    (parts low high covered segments).Pairwise fun first second => first.high ≤ second.low := by
  induction segments generalizing covered with
  | nil => exact .nil
  | cons measured rest inductionHypothesis =>
    obtain ⟨-, others⟩ := List.forall_mem_cons.mp sound
    rw [parts, List.pairwise_append]
    refine ⟨?_, inductionHypothesis _ others, fun first member second behind => ?_⟩
    · split
      · exact List.pairwise_singleton _ _
      · exact .nil
    · split at member
      case isTrue =>
        rw [List.mem_singleton.mp member]
        exact (min_le_left _ _).trans
          ((le_max_left _ _).trans (parts_between _ _ _ others second behind).1)
      case isFalse => cases member

/-- What is left of a part between two lengths, if anything is. -/
noncomputable def Part.within (low high : ℝ) (part : Part) : List Part :=
  if max part.low low < min part.high high then
    [{ part with low := max part.low low, high := min part.high high }] else []

/-- A part between two lengths is left as it is. -/
theorem Part.Proper.within_inside {part : Part} (proper : part.Proper) (begins : low ≤ part.low)
    (ends : part.high ≤ high) : part.within low high = [part] := by
  rw [Part.within, max_eq_left begins, min_eq_left ends, if_pos proper.ordered]

/-- Of a part beside the window nothing is kept. -/
theorem Part.within_outside {part : Part} (outside : part.high ≤ low ∨ high ≤ part.low) :
    part.within low high = [] := by
  refine if_neg (not_lt.mpr ?_)
  rcases outside with before | behind
  · exact (min_le_left _ _).trans (before.trans (le_max_right _ _))
  · exact (min_le_right _ _).trans (behind.trans (le_max_left _ _))

/-- Of parts inside the window everything is kept. -/
theorem within_all {list : List Part} (proper : ∀ part ∈ list, part.Proper)
    (begins : ∀ part ∈ list, low ≤ part.low) (ends : ∀ part ∈ list, part.high ≤ high) :
    list.flatMap (Part.within low high) = list := by
  have each : ∀ part ∈ list, part.within low high = [part] := fun part member =>
    (proper part member).within_inside (begins part member) (ends part member)
  rw [List.flatMap_congr each, List.flatMap_singleton']

variable (covered segments) in
/-- Parts of parts are parts. -/
theorem parts_within {low' high' : ℝ} (lower : low' ≤ low) (higher : high ≤ high') :
    (parts low' high' covered segments).flatMap (Part.within low high) =
      parts low high covered segments := by
  induction segments generalizing covered with
  | nil => rfl
  | cons measured rest inductionHypothesis =>
    rw [parts, parts, List.flatMap_append, inductionHypothesis]
    congr 1
    have least : max (max covered low') low = max covered low := by
      rw [max_assoc, max_eq_right lower]
    have most : min (min (covered + measured.length) high') high =
        min (covered + measured.length) high := by
      rw [min_assoc, min_eq_right higher]
    split
    case isTrue => simp only [List.flatMap_singleton, Part.within, least, most]
    case isFalse apart =>
      refine (if_neg fun inside => apart ?_).symm
      exact (max_le_max_left _ lower).trans_lt (inside.trans_le (min_le_min_left _ higher))

variable (covered) in
/-- Where the parts are split, those up to there are in front and those from there on behind. -/
theorem parts_split (sound : ∀ measured ∈ segments, measured.Sound) (front back : List Part)
    (split : parts low high covered segments = front ++ back) {middle : ℝ} (begun : low ≤ middle)
    (notOver : middle ≤ high) (before : ∀ part ∈ front, part.high ≤ middle)
    (behind : ∀ part ∈ back, middle ≤ part.low) :
    parts low middle covered segments = front ∧ parts middle high covered segments = back := by
  have lie := parts_lie low high covered sound
  have between := parts_between low high covered sound
  rw [split, List.forall_mem_append] at lie between
  have frontKept : front.flatMap (Part.within low middle) = front :=
    within_all (fun part member => (lie.1 part member).toProper)
      (fun part member => (le_max_right _ _).trans (between.1 part member).1) before
  have backKept : back.flatMap (Part.within middle high) = back :=
    within_all (fun part member => (lie.2 part member).toProper) behind
      fun part member => (between.2 part member).2
  have frontGone : front.flatMap (Part.within middle high) = [] :=
    List.flatMap_eq_nil_iff.mpr fun part member =>
      Part.within_outside (.inl (before part member))
  have backGone : back.flatMap (Part.within low middle) = [] :=
    List.flatMap_eq_nil_iff.mpr fun part member =>
      Part.within_outside (.inr (behind part member))
  constructor
  · rw [← parts_within covered segments le_rfl notOver, split, List.flatMap_append, frontKept,
      backGone, List.append_nil]
  · rw [← parts_within covered segments begun le_rfl, split, List.flatMap_append, frontGone,
      backKept, List.nil_append]

end Order

section Numbers

/-- A part that begins with its segment begins at its start. -/
theorem Part.Proper.start_piece {part : Part} (proper : part.Proper)
    (begins : part.low = part.position) : part.piece.start = part.measured.segment.start := by
  rw [piece, Exact.part_start, begins, sub_self, Exact.point_start proper.covers.long]

/-- A part that ends with its segment ends at its end. -/
theorem Part.Proper.finish_piece {part : Part} (proper : part.Proper)
    (ends : part.high = part.position + part.measured.length) :
    part.piece.finish = part.measured.segment.finish := by
  rw [piece, Exact.part_finish, ends, add_sub_cancel_left, proper.sound.exact,
    Exact.point_finish proper.covers.long]

/-- The end of one segment is next to the start of another. -/
def Measured.Near (first second : Measured ℝ) : Prop :=
  (first.segment.finish - second.segment.start).length < negligible

variable {related : Measured ℝ → Measured ℝ → Prop}

/-- Whether a part that follows another one is drawn without a move is up to their segments. -/
theorem Part.Follows.continues_iff {first second : Part} (follows : first.Follows related second)
    (firstProper : first.Proper) (secondProper : second.Proper) (number other : ℕ) :
    continues (some (number, first.piece.finish)) other second.piece.start = true ↔
      number = other ∧ first.measured.Near second.measured := by
  rw [firstProper.finish_piece follows.ends, secondProper.start_piece follows.begins]
  simp [continues, Measured.Near]

/-- Numbers for two parts, the first in front of the second. If they meet, they have one number just
in case that they are drawn without a move between them. -/
structure Numbering (first second : ℕ × Part) : Prop where
  ordered : first.2.high ≤ second.2.low
  apart : first.2.high = second.2.low →
    (first.1 = second.1 ↔ first.2.measured.subpath = second.2.measured.subpath ∧
      first.2.measured.Near second.2.measured)

/-- Behind any of the parts, parts are drawn alike with such numbers and with the numbers of their
subpaths, though the cursors have different numbers in general. -/
theorem drawn_behind {first : ℕ × Part} {rest : List (ℕ × Part)}
    (proper : ∀ numbered ∈ first :: rest, numbered.2.Proper)
    (numbering : (first :: rest).Pairwise Numbering)
    (chain : ((first :: rest).map Prod.snd).IsChain (Part.Follows related)) :
    drawn (some (first.1, first.2.piece.finish))
        (rest.map fun numbered => (numbered.1, numbered.2.piece)) =
      drawn (some (first.2.measured.subpath, first.2.piece.finish))
        (rest.map fun numbered => numbered.2.numbered) := by
  induction rest generalizing first with
  | nil => rfl
  | cons second rest inductionHypothesis =>
    obtain ⟨firstProper, restProper⟩ := List.forall_mem_cons.mp proper
    obtain ⟨firstNumbering, restNumbering⟩ := List.pairwise_cons.mp numbering
    obtain ⟨follows, restChain⟩ := List.isChain_cons_cons.mp chain
    have secondProper := restProper second List.mem_cons_self
    have apart := (firstNumbering second List.mem_cons_self).apart follows.meets
    have same : continues (some (first.1, first.2.piece.finish)) second.1 second.2.piece.start =
        continues (some (first.2.measured.subpath, first.2.piece.finish))
          second.2.measured.subpath second.2.piece.start := by
      rw [Bool.eq_iff_iff, follows.continues_iff firstProper secondProper,
        follows.continues_iff firstProper secondProper, apart]
      tauto
    rw [List.map_cons, List.map_cons, drawn, Part.numbered, drawn, same,
      inductionHypothesis restProper restNumbering restChain]

/-- Parts are drawn alike under numbers of their own and under those of their subpaths, as long as
both change at the same places. -/
theorem drawn_numbering {list : List (ℕ × Part)} (proper : ∀ numbered ∈ list, numbered.2.Proper)
    (numbering : list.Pairwise Numbering)
    (chain : (list.map Prod.snd).IsChain (Part.Follows related)) :
    drawn none (list.map fun numbered => (numbered.1, numbered.2.piece)) =
      drawn none (list.map fun numbered => numbered.2.numbered) := by
  cases list with
  | nil => rfl
  | cons first rest =>
    exact congrArg (fun drawn => _ :: _ :: drawn) (drawn_behind proper numbering chain)

end Numbers

section Tracing

/-- Segments of one subpath, one after the other, that are next to each other meet. -/
def Measured.Joins (first second : Measured ℝ) : Prop :=
  first.subpath = second.subpath → first.Near second → first.segment.finish = second.segment.start

/-- Tracing the element of a piece gives the piece. -/
theorem trace_element {P : Type} [Scalar P] (origin : Vec2 P) (started : Bool) (number : ℕ)
    (piece : Segment P) (rest : Path P) :
    Path.traceFrom origin piece.start started number (piece.element :: rest) =
      (number, piece) :: Path.traceFrom origin piece.finish started number rest := by
  cases piece <;> rfl

/-- Tracing what is drawn behind a part: either the same subpath is continued by the next part, or a
move begins another one with it. -/
theorem trace_next {first second : Part} (follows : first.Follows Measured.Joins second)
    (firstProper : first.Proper) (secondProper : second.Proper) (rest : List Part)
    (origin : Vec2 ℝ) (number : ℕ) :
    ∃ next origin', (number = next ↔ first.measured.subpath = second.measured.subpath ∧
        first.measured.Near second.measured) ∧
      Path.traceFrom origin first.piece.finish true number
          (drawn (some (first.measured.subpath, first.piece.finish))
            ((second :: rest).map Part.numbered)) =
        (next, second.piece) :: Path.traceFrom origin' second.piece.finish true next
          (drawn (some (second.measured.subpath, second.piece.finish))
            (rest.map Part.numbered)) := by
  have continued := follows.continues_iff firstProper secondProper first.measured.subpath
    second.measured.subpath
  by_cases joined : first.measured.subpath = second.measured.subpath ∧
      first.measured.Near second.measured
  · have meet : first.piece.finish = second.piece.start := by
      rw [firstProper.finish_piece follows.ends, secondProper.start_piece follows.begins]
      exact follows.related joined.1 joined.2
    refine ⟨number, origin, by simp [joined], ?_⟩
    rw [List.map_cons, Part.numbered, drawn, if_pos (continued.mpr joined), List.nil_append,
      meet, trace_element]
  · refine ⟨number + 1, second.piece.start, by simp [joined], ?_⟩
    rw [List.map_cons, Part.numbered, drawn, if_neg (mt continued.mp joined)]
    exact trace_element _ _ _ _ _

/-- Tracing what is drawn behind a part gives the parts behind it back. -/
theorem trace_behind (origin : Vec2 ℝ) (number : ℕ) {first : Part} {rest : List Part}
    (proper : ∀ part ∈ first :: rest, part.Proper)
    (chain : (first :: rest).IsChain (Part.Follows Measured.Joins)) :
    ∃ numbered : List (ℕ × Part), numbered.map Prod.snd = rest ∧
      ((number, first) :: numbered).Pairwise Numbering ∧
      Path.traceFrom origin first.piece.finish true number
          (drawn (some (first.measured.subpath, first.piece.finish)) (rest.map Part.numbered)) =
        numbered.map fun numbered => (numbered.1, numbered.2.piece) := by
  induction rest generalizing origin number first with
  | nil => exact ⟨[], rfl, List.pairwise_singleton _ _, rfl⟩
  | cons second rest inductionHypothesis =>
    obtain ⟨firstProper, restProper⟩ := List.forall_mem_cons.mp proper
    obtain ⟨follows, restChain⟩ := List.isChain_cons_cons.mp chain
    have secondProper := restProper second List.mem_cons_self
    obtain ⟨next, origin', count, traced⟩ :=
      trace_next follows firstProper secondProper rest origin number
    obtain ⟨numbered, parts, numbering, tail⟩ :=
      inductionHypothesis origin' next restProper restChain
    refine ⟨(next, second) :: numbered, by rw [List.map_cons, parts],
      List.pairwise_cons.mpr ⟨?_, numbering⟩, by rw [traced, tail, List.map_cons]⟩
    refine List.forall_mem_cons.mpr ⟨⟨follows.meets.le, fun _ => count⟩, fun other member => ?_⟩
    -- Parts behind the next one are apart from the first.
    have further : first.high < other.2.low := by
      rw [follows.meets]
      exact secondProper.ordered.trans_le
        ((List.pairwise_cons.mp numbering).1 other member).ordered
    exact ⟨further.le, fun meets => absurd meets further.ne⟩

/-- If parts are drawn from where they begin, tracing what is drawn gives the parts back. -/
theorem trace_drawn {list : List Part} (proper : ∀ part ∈ list, part.Proper)
    (chain : list.IsChain (Part.Follows Measured.Joins)) :
    ∃ numbered : List (ℕ × Part), numbered.map Prod.snd = list ∧ numbered.Pairwise Numbering ∧
      (drawn none (list.map Part.numbered)).trace =
        numbered.map fun numbered => (numbered.1, numbered.2.piece) := by
  cases list with
  | nil => exact ⟨[], rfl, .nil, rfl⟩
  | cons first rest =>
    obtain ⟨numbered, parts, numbering, tail⟩ := trace_behind first.piece.start 0 proper chain
    refine ⟨(0, first) :: numbered, by rw [List.map_cons, parts], numbering, ?_⟩
    rw [List.map_cons, List.map_cons, ← tail]
    exact trace_element _ _ _ _ _

end Tracing

end VectorMotion.Trim
