import VectorMotion.Proofs.Trim.Succession

/-!
# Measuring what has been kept

What a trim has left of an outline is measured anew by the next one. Parts that have become too
short do not count any more; only the first and the last part can be short. If a part begins where the one
before has ended, or is drawn apart from it, the others are measured as the parts that they are. So
what is kept of them is a stretch of the outline again.
-/

namespace VectorMotion.Trim

variable {low high : ℝ} {segments : List (Measured ℝ)}
  {related : Measured ℝ → Measured ℝ → Prop}

section Counting

/-- Whether a part is long enough to count. -/
noncomputable def Part.counts (part : Part) : Bool := negligible < part.high - part.low

/-- A part counts if it is longer than what is negligible. -/
theorem Part.counts_iff (part : Part) : part.counts = true ↔ negligible < part.high - part.low :=
  decide_eq_true_iff

/-- All parts but the first begin where their segments do. -/
theorem follow_begins {first : Part} {rest : List Part}
    (chain : (first :: rest).IsChain (Part.Follows related)) :
    ∀ part ∈ rest, part.low = part.position := by
  induction rest generalizing first with
  | nil => simp
  | cons second rest inductionHypothesis =>
    obtain ⟨follows, behind⟩ := List.isChain_cons_cons.mp chain
    exact List.forall_mem_cons.mpr ⟨follows.begins, inductionHypothesis behind⟩

/-- All parts but the last end where their segments do. -/
theorem follow_ends {front : List Part} {last : Part}
    (chain : (front ++ [last]).IsChain (Part.Follows related)) :
    ∀ part ∈ front, part.high = part.position + part.measured.length := by
  induction front with
  | nil => simp
  | cons first rest inductionHypothesis =>
    obtain ⟨next, behind⟩ := List.isChain_cons.mp chain
    refine List.forall_mem_cons.mpr ⟨?_, inductionHypothesis behind⟩
    cases rest with
    | nil => exact (next last rfl).ends
    | cons second _ => exact (next second rfl).ends

variable (sound : ∀ measured ∈ segments, measured.Sound) (nonneg : 0 ≤ low) (ordered : low ≤ high)
  (inside : high ≤ totalLength segments)
include sound nonneg ordered inside

/-- The parts between two lengths of the outline begin at the first length. -/
theorem parts_begin {first : Part} {rest : List Part}
    (list : parts low high 0 segments = first :: rest) : first.low = low := by
  have proper := (parts_lie low high 0 sound first (by simp [list])).toProper
  have between := parts_between low high 0 sound first (by simp [list])
  have apart := parts_ordered low high 0 sound
  rw [list] at apart
  have begun : low ≤ first.low := (le_max_right _ _).trans between.1
  have notOver : first.low ≤ high := proper.ordered.le.trans between.2
  -- The same parts lie between where the first of them begins and the second length.
  have same : parts first.low high 0 segments = first :: rest := by
    refine (parts_split 0 sound [] _ list begun notOver (by simp) ?_).2
    refine List.forall_mem_cons.mpr ⟨le_rfl, fun other member => ?_⟩
    exact proper.ordered.le.trans ((List.pairwise_cons.mp apart).1 other member)
  have whole := parts_length_inside nonneg ordered sound inside
  have remaining := parts_length_inside (nonneg.trans begun) notOver sound inside
  rw [same, ← list, whole] at remaining
  linarith

/-- The parts between two lengths of the outline end at the second length. -/
theorem parts_end {front : List Part} {last : Part}
    (list : parts low high 0 segments = front ++ [last]) : last.high = high := by
  have proper := (parts_lie low high 0 sound last (by simp [list])).toProper
  have between := parts_between low high 0 sound last (by simp [list])
  have apart := parts_ordered low high 0 sound
  rw [list, List.pairwise_append] at apart
  have begun : low ≤ last.high :=
    (le_max_right _ _).trans (between.1.trans proper.ordered.le)
  have same : parts low last.high 0 segments = front ++ [last] := by
    refine (parts_split 0 sound _ [] (by simpa using list) begun between.2 ?_ (by simp)).1
    refine List.forall_mem_append.mpr ⟨fun other member => ?_, by simp⟩
    exact (apart.2.2 other member last (List.mem_singleton_self _)).trans proper.ordered.le
  have whole := parts_length_inside nonneg ordered sound inside
  have remaining := parts_length_inside nonneg begun sound (between.2.trans inside)
  rw [same, ← list, whole] at remaining
  linarith

variable (chain : segments.IsChain related)
include chain

/-- A first part that does not count can be left out. -/
theorem counted_front : ∃ low', low ≤ low' ∧ low' ≤ low + negligible ∧ low' ≤ high ∧
    (parts low high 0 segments).filter Part.counts =
      (parts low' high 0 segments).filter Part.counts ∧
    (∀ part ∈ parts low' high 0 segments, part.low = part.position ∨ part.counts = true) ∧
    ((∀ part ∈ parts low high 0 segments, part.counts = true) → low' = low) := by
  have follow := parts_follow low high 0 sound chain
  have apart := parts_ordered low high 0 sound
  cases list : parts low high 0 segments with
  | nil => exact ⟨low, le_rfl, by linarith [negligible_pos], ordered, by rw [list],
      by simp [list], fun _ => rfl⟩
  | cons first rest =>
    rw [list] at follow apart
    have begins : first.low = low := parts_begin sound nonneg ordered inside list
    cases counts : first.counts with
    | true =>
      refine ⟨low, le_rfl, by linarith [negligible_pos], ordered, by rw [list], ?_, fun _ => rfl⟩
      rw [list]
      exact List.forall_mem_cons.mpr ⟨.inr counts, fun part member =>
        .inl (follow_begins follow part member)⟩
    | false =>
      have proper := (parts_lie low high 0 sound first (by simp [list])).toProper
      have between := parts_between low high 0 sound first (by simp [list])
      have lower : low ≤ first.high := begins ▸ proper.ordered.le
      have without : parts first.high high 0 segments = rest :=
        (parts_split 0 sound [first] rest list lower between.2 (by simp)
          (List.pairwise_cons.mp apart).1).2
      have short : first.high - first.low ≤ negligible :=
        not_lt.mp fun long => absurd ((first.counts_iff).mpr long) (by simp [counts])
      refine ⟨first.high, lower, by linarith, between.2, ?_, ?_, ?_⟩
      · rw [without, List.filter_cons_of_neg (by simp [counts])]
      · rw [without]
        exact fun part member => .inl (follow_begins follow part member)
      · intro all
        exact absurd (all first List.mem_cons_self) (by simp [counts])

/-- A last part that does not count can be left out. -/
theorem counted_back : ∃ high', high - negligible ≤ high' ∧ high' ≤ high ∧ low ≤ high' ∧
    (parts low high 0 segments).filter Part.counts =
      (parts low high' 0 segments).filter Part.counts ∧
    parts low high' 0 segments ⊆ parts low high 0 segments ∧
    (∀ part ∈ parts low high' 0 segments,
      part.high = part.position + part.measured.length ∨ part.counts = true) ∧
    ((∀ part ∈ parts low high 0 segments, part.counts = true) → high' = high) := by
  have follow := parts_follow low high 0 sound chain
  have apart := parts_ordered low high 0 sound
  rcases List.eq_nil_or_concat' (parts low high 0 segments) with none | ⟨front, last, list⟩
  · exact ⟨high, by linarith [negligible_pos], le_rfl, ordered, rfl, List.Subset.refl _,
      by simp [none], fun _ => rfl⟩
  · rw [list] at follow apart
    have ends : last.high = high := parts_end sound nonneg ordered inside list
    cases counts : last.counts with
    | true =>
      refine ⟨high, by linarith [negligible_pos], le_rfl, ordered, rfl, List.Subset.refl _, ?_,
        fun _ => rfl⟩
      rw [list]
      exact List.forall_mem_append.mpr ⟨fun part member => .inl (follow_ends follow part member),
        List.forall_mem_singleton.mpr (.inr counts)⟩
    | false =>
      have proper := (parts_lie low high 0 sound last (by simp [list])).toProper
      have between := parts_between low high 0 sound last (by simp [list])
      have higher : last.low ≤ high := proper.ordered.le.trans between.2
      have begun : low ≤ last.low := (le_max_right _ _).trans between.1
      have without : parts low last.low 0 segments = front :=
        (parts_split 0 sound front [last] list begun higher (fun part member =>
          (List.pairwise_append.mp apart).2.2 part member last (List.mem_singleton_self _))
          (by simp)).1
      have short : last.high - last.low ≤ negligible :=
        not_lt.mp fun long => absurd ((last.counts_iff).mpr long) (by simp [counts])
      refine ⟨last.low, by linarith, higher, begun, ?_, ?_, ?_, ?_⟩
      · rw [without, list, List.filter_append, List.filter_cons_of_neg (by simp [counts]),
          List.filter_nil, List.append_nil]
      · rw [without, list]
        exact List.subset_append_left _ _
      · rw [without]
        exact fun part member => .inl (follow_ends follow part member)
      · intro all
        exact absurd (all last (list ▸ List.mem_append_right _ (List.mem_singleton_self _)))
          (by simp [counts])

/-- The parts that count are those between two lengths next to the given ones. -/
theorem counted : ∃ low' high', low ≤ low' ∧ low' ≤ low + negligible ∧ high - negligible ≤ high' ∧
    high' ≤ high ∧ low' ≤ high' ∧
    (parts low high 0 segments).filter Part.counts = parts low' high' 0 segments ∧
    ((∀ part ∈ parts low high 0 segments, part.counts = true) → low' = low ∧ high' = high) := by
  obtain ⟨low', lower, near, begun, front, begins, same⟩ :=
    counted_front sound nonneg ordered inside chain
  obtain ⟨high', close, higher, ended, back, among, ends, equal⟩ :=
    counted_back sound (nonneg.trans lower) begun inside chain
  refine ⟨low', high', lower, near, close, higher, ended, ?_, fun all => ?_⟩
  · rw [front, back, List.filter_eq_self]
    intro part member
    rcases begins part (among member) with begins | counts
    · rcases ends part member with ends | counts
      -- A part that is cut at neither end is a segment, and segments count.
      · rw [Part.counts_iff, begins, ends, add_sub_cancel_left]
        exact (parts_lie _ _ _ sound part member).sound.counts
      · exact counts
    · exact counts
  · obtain rfl := same all
    exact ⟨rfl, equal all⟩

end Counting

section Measuring

/-- A part, numbered and measured anew. -/
noncomputable def again (numbered : ℕ × Part) : Measured ℝ :=
  ⟨numbered.1, numbered.2.piece, numbered.2.high - numbered.2.low⟩

/-- What is measured of the parts of an outline that are drawn are the parts that count. -/
theorem measure_drawn {list : List Part} (proper : ∀ part ∈ list, part.Proper)
    (chain : list.IsChain (Part.Follows Measured.Joins)) :
    ∃ numbered : List (ℕ × Part), numbered.map Prod.snd = list.filter Part.counts ∧
      numbered.Pairwise Numbering ∧
      measure (drawn none (list.map Part.numbered)) = numbered.map again := by
  obtain ⟨numbered, parts, numbering, traced⟩ := trace_drawn proper chain
  refine ⟨numbered.filter fun numbered => numbered.2.counts, ?_, numbering.filter _, ?_⟩
  · rw [← parts, List.filter_map]
    rfl
  · have each : ∀ other ∈ numbered,
        (⟨other.1, other.2.piece, Measure.length other.2.piece⟩ : Measured ℝ) = again other := by
      intro other member
      have own : other.2.Proper := proper _ (parts ▸ List.mem_map_of_mem member)
      rw [again, own.length_piece]
    rw [measure, traced, List.map_map, Function.comp_def, List.map_congr_left each,
      List.filter_map]
    rfl

/-- What is left of numbered parts between two lengths. -/
noncomputable def left (low high : ℝ) (list : List (ℕ × Part)) : List (ℕ × Part) :=
  list.flatMap fun numbered => (numbered.2.within low high).map (numbered.1, ·)

/-- The part of a part that has been measured anew, which is `shift` further on the outline. -/
theorem again_part (shift low high covered : ℝ) {numbered : ℕ × Part}
    (own : numbered.2.Proper) (begins : numbered.2.low = covered + shift) :
    (parts low high covered [again numbered]).map Part.numbered =
      (left (low + shift) (high + shift) [numbered]).map
        fun numbered => (numbered.1, numbered.2.piece) := by
  have reached : covered + (again numbered).length + shift = numbered.2.high := by
    rw [again, add_right_comm, ← begins]
    exact add_sub_cancel _ _
  -- Both ends are moved by the same shift.
  have lower : max numbered.2.low (low + shift) = max covered low + shift := by
    rw [begins]
    exact max_add_add_right _ _ _
  have upper : min numbered.2.high (high + shift) =
      min (covered + (again numbered).length) high + shift := by
    rw [← reached]
    exact min_add_add_right _ _ _
  rw [left, List.flatMap_singleton, Part.within, lower, upper, parts, parts, List.append_nil]
  by_cases some : max covered low < min (covered + (again numbered).length) high
  · have lowInside : max covered low - covered ∈ Set.Icc 0
        (numbered.2.high - numbered.2.position - (numbered.2.low - numbered.2.position)) := by
      constructor <;>
        linarith [le_max_left covered low, min_le_left (covered + (again numbered).length) high]
    have highInside : min (covered + (again numbered).length) high - covered ∈ Set.Icc 0
        (numbered.2.high - numbered.2.position - (numbered.2.low - numbered.2.position)) := by
      constructor <;>
        linarith [le_max_left covered low, min_le_left (covered + (again numbered).length) high]
    have cut := own.covers.part_part lowInside highInside
    have shifted (x : ℝ) : numbered.2.low - numbered.2.position + (x - covered) =
        x + shift - numbered.2.position := by
      rw [begins]
      ring
    rw [shifted, shifted] at cut
    rw [if_pos some, if_pos (add_lt_add_left some shift)]
    exact congrArg (fun piece => [(numbered.1, piece)]) cut
  · rw [if_neg some, if_neg (mt lt_of_add_lt_add_right some)]
    rfl

/-- The parts of parts that have been measured anew. -/
theorem again_parts (shift low high covered : ℝ) {list : List (ℕ × Part)}
    (proper : ∀ numbered ∈ list, numbered.2.Proper)
    (chain : (list.map Prod.snd).IsChain (Part.Follows related))
    (first : ∀ numbered ∈ list.head?, numbered.2.low = covered + shift) :
    (parts low high covered (list.map again)).map Part.numbered =
      (left (low + shift) (high + shift) list).map
        fun numbered => (numbered.1, numbered.2.piece) := by
  induction list generalizing covered with
  | nil => rfl
  | cons numbered rest inductionHypothesis =>
    obtain ⟨own, others⟩ := List.forall_mem_cons.mp proper
    obtain ⟨next, behind⟩ := List.isChain_cons.mp chain
    have begins : numbered.2.low = covered + shift := first numbered rfl
    have reached : numbered.2.high = covered + (again numbered).length + shift := by
      rw [again, add_right_comm, ← begins]
      exact (add_sub_cancel _ _).symm
    have restFirst : ∀ second ∈ rest.head?,
        second.2.low = covered + (again numbered).length + shift := by
      intro second member
      have follows := next second.2 (by
        rw [List.head?_map, Option.mem_def.mp member]
        rfl)
      rw [← reached, follows.meets]
    have here := again_part shift low high covered own begins
    rw [parts, parts, List.append_nil, left, List.flatMap_singleton] at here
    rw [List.map_cons, parts, List.map_append, here, inductionHypothesis _ others behind restFirst,
      left, left, List.flatMap_cons, List.map_append]

/-- Numbers that tell parts apart do so for what is left of the parts. -/
theorem Numbering.within {first second : ℕ × Part} (numbering : Numbering first second)
    (low high : ℝ) : ∀ kept ∈ (first.2.within low high).map (first.1, ·),
      ∀ other ∈ (second.2.within low high).map (second.1, ·), Numbering kept other := by
  intro kept member other otherMember
  obtain ⟨_, inside, rfl⟩ := List.mem_map.mp member
  obtain ⟨_, otherInside, rfl⟩ := List.mem_map.mp otherMember
  unfold Part.within at inside otherInside
  split at inside
  case isFalse => cases inside
  case isTrue =>
    split at otherInside
    case isFalse => cases otherInside
    case isTrue =>
      rw [List.mem_singleton.mp inside, List.mem_singleton.mp otherInside]
      have before : min first.2.high high ≤ first.2.high := min_le_left _ _
      have behind : second.2.low ≤ max second.2.low low := le_max_left _ _
      refine ⟨before.trans (numbering.ordered.trans behind), fun meets => numbering.apart ?_⟩
      have reached : second.2.low ≤ first.2.high := behind.trans (meets.ge.trans before)
      exact le_antisymm numbering.ordered reached

/-- What is left of parts in their order is in their order. -/
theorem left_numbering {list : List (ℕ × Part)} (numbering : list.Pairwise Numbering)
    (low high : ℝ) : (left low high list).Pairwise Numbering := by
  refine List.pairwise_flatMap.mpr ⟨fun part _ => ?_, ?_⟩
  · unfold Part.within
    split
    · exact List.pairwise_singleton _ _
    · exact .nil
  · exact numbering.imp fun numbered => numbered.within _ _

/-- What is left of the parts of an outline are parts of the outline. -/
theorem left_parts {list : List (ℕ × Part)} {low' high' : ℝ}
    (members : list.map Prod.snd = parts low' high' 0 segments) (lower : low' ≤ low)
    (higher : high ≤ high') : (left low high list).map Prod.snd = parts low high 0 segments := by
  rw [← parts_within 0 segments lower higher, ← members, left, List.flatMap_map, List.map_flatMap]
  refine congrArg (list.flatMap ·) (funext fun part => ?_)
  rw [List.map_map]
  exact List.map_id _

variable (sound : ∀ measured ∈ segments, measured.Sound) (nonneg : 0 ≤ low) (ordered : low ≤ high)
  (inside : high ≤ totalLength segments)
include sound nonneg ordered inside

/-- What is kept of what has been kept of an outline, if there are no gaps in it: between two
lengths of what counts, the parts of the outline between two lengths of its own. -/
theorem drawn_again (chain : segments.IsChain Measured.Joins) :
    ∃ low' high', low ≤ low' ∧ low' ≤ low + negligible ∧ high - negligible ≤ high' ∧
      high' ≤ high ∧ low' ≤ high' ∧
      ((∀ part ∈ parts low high 0 segments, part.counts = true) → low' = low ∧ high' = high) ∧
      let kept := measure (drawn none ((parts low high 0 segments).map Part.numbered))
      totalLength kept = high' - low' ∧
      ∀ first last, 0 ≤ first → last ≤ high' - low' →
        drawn none ((parts first last 0 kept).map Part.numbered) =
          drawn none ((parts (first + low') (last + low') 0 segments).map Part.numbered) := by
  obtain ⟨low', high', lower, near, close, higher, ended, counting, same⟩ :=
    counted sound nonneg ordered inside chain
  have proper (low high : ℝ) : ∀ part ∈ parts low high 0 segments, part.Proper :=
    fun part member => (parts_lie low high 0 sound part member).toProper
  obtain ⟨numbered, members, numbering, measured⟩ :=
    measure_drawn (proper low high) (parts_follow low high 0 sound chain)
  rw [counting] at members
  refine ⟨low', high', lower, near, close, higher, ended, same, ?_, fun first last least most => ?_⟩
  · rw [measured, ← parts_length_inside (nonneg.trans lower) ended sound (higher.trans inside),
      ← members, total_length, List.map_map, List.map_map]
    rfl
  · have begins : ∀ first ∈ numbered.head?, first.2.low = 0 + low' := by
      intro first member
      obtain ⟨rest, list⟩ : ∃ rest, numbered = first :: rest := List.head?_eq_some_iff.mp member
      have firstPart : parts low' high' 0 segments = first.2 :: rest.map Prod.snd := by
        rw [← members, list, List.map_cons]
      rw [zero_add]
      exact parts_begin sound (nonneg.trans lower) ended (higher.trans inside) firstPart
    have leftParts := left_parts members (le_add_of_nonneg_left least : low' ≤ first + low')
      (by linarith : last + low' ≤ high')
    have shifted := again_parts low' first last 0
      (fun part member => proper low' high' _ (members ▸ List.mem_map_of_mem member))
      (members ▸ parts_follow low' high' 0 sound chain) begins
    rw [measured, shifted, ← leftParts, List.map_map]
    exact drawn_numbering
      (fun part member => proper _ _ _ (leftParts ▸ List.mem_map_of_mem member))
      (left_numbering numbering _ _) (leftParts ▸ parts_follow _ _ 0 sound chain)

end Measuring

end VectorMotion.Trim
