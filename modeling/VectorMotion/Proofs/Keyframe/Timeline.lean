import VectorMotion.Proofs.Scalar.Succession
import VectorMotion.Keyframe.Track

/-!
# The value at every time

Keyframes that come one after the other divide all time: what is before the first of them, and for
each one the time from when it comes until the next one does. In its own time a keyframe decides on
the value. It begins with the value that it gives or, if it gives none, with the one that the
keyframe before it has led to, and from there it leads to the value at the next one, or holds.

What a track makes of this is looked up by halving a range of spans. Here it is stated keyframe by
keyframe, without spans and without a search.
-/

namespace VectorMotion

open Document

variable {S V W : Type} [Scalar S]

/-- The span from one keyframe to the next, from the value that the first one begins with. -/
def Span.between (convert : W → V) (key next : Keyframe S W) (start : V) : Span S V where
  startTime := key.time
  endTime := next.time
  start
  finish := ((key.finish.or next.start).map convert).getD start
  easeOut := control key.easeOut Vec2.zero
  easeIn := control key.easeIn (Vec2.both 1)
  hold := key.hold
  tangentOut := tangent key.tangentOut
  tangentIn := tangent key.tangentIn

namespace Track

/-- The value that a keyframe begins with: its own, or else the one that the keyframe before it ends
with. That one has its own value at its end if it gives no other. The first keyframe has only the
default to fall back on. -/
def begun (convert : W → V) (default : V) (keys : List (Keyframe S W)) : ℕ → V
  | 0 => ((keys[0]?.bind Keyframe.start).map convert).getD default
  | index + 1 => ((keys[index + 1]?.bind Keyframe.start).map convert).getD
      (((keys[index]?.bind Keyframe.finish).map convert).getD (begun convert default keys index))

/-- A time belongs to a keyframe that has come by then, when the next one has not. -/
def Belongs (keys : List (Keyframe S W)) (time : S) (index : ℕ) : Prop :=
  (∃ key ∈ keys[index]?, key.time ≤ time) ∧ ∀ next ∈ keys[index + 1]?, time < next.time

/-- Between two keyframes that are neighbours time belongs to the first. -/
theorem Belongs.between {keys : List (Keyframe S W)} {time : S} {index : ℕ} {key next : Keyframe S W}
    (found : keys[index]? = some key) (following : keys[index + 1]? = some next)
    (come : key.time ≤ time) (notCome : time < next.time) : Belongs keys time index := by
  refine ⟨⟨key, found, come⟩, fun other atNext => ?_⟩
  obtain rfl := Option.some.inj (following.symm.trans atNext)
  exact notCome

/-- From the last keyframe on time belongs to it. -/
theorem Belongs.last {keys : List (Keyframe S W)} {time : S} {index : ℕ} {key : Keyframe S W}
    (found : keys[index]? = some key) (following : keys[index + 1]? = none)
    (come : key.time ≤ time) : Belongs keys time index :=
  ⟨⟨key, found, come⟩, by simp [following]⟩

section Spans

/-- What a keyframe begins with, counted from the second one on. -/
theorem begun_behind (convert : W → V) (default : V) (key next : Keyframe S W)
    (rest : List (Keyframe S W)) (index : ℕ) :
    begun convert default (key :: next :: rest) (index + 1) =
      begun convert (Span.between convert key next
        ((key.start.map convert).getD default)).finish (next :: rest) index := by
  induction index with
  | zero => cases given : next.start <;> simp [begun, Span.between, given]
  | succ index inductionHypothesis =>
    rw [begun, inductionHypothesis, begun]
    simp

omit [Scalar S] in
/-- A keyframe that gives its value begins with it. -/
theorem begun_given (convert : W → V) (default : V) {keys : List (Keyframe S W)} {index : ℕ}
    {key : Keyframe S W} {start : V} (found : keys[index]? = some key)
    (given : key.start.map convert = some start) : begun convert default keys index = start := by
  cases index <;> simp [begun, found, given]

/-- Each keyframe makes the span that begins with it: the way to the next one, or the end. -/
theorem spans_keys (convert : W → V) (previous : V) (keys : List (Keyframe S W)) (index : ℕ) :
    (spansFrom convert previous keys)[index]? = keys[index]?.map fun key =>
      match keys[index + 1]? with
      | some next => Span.between convert key next (begun convert previous keys index)
      | none => Span.still key.time (begun convert previous keys index) := by
  fun_induction spansFrom convert previous keys generalizing index with
  | case1 => rfl
  | case2 previous last => cases index <;> simp [begun]
  | case3 previous key next rest start finish inductionHypothesis =>
    cases index with
    | zero => simp [begun, Span.between, start, finish]
    | succ index =>
      rw [List.getElem?_cons_succ, inductionHypothesis, List.getElem?_cons_succ,
        List.getElem?_cons_succ, begun_behind]
      rfl

/-- The search finds the last of the spans that have started, if none has started after one that
has not. -/
theorem search_last {spans : Array (Span S V)} {time : S} {index : ℕ}
    (started : ∀ other, startsBy spans time other = decide (other ≤ index)) (base size : ℕ)
    (atLeast : base ≤ index) (within : index < base + size) :
    search spans time base size = index := by
  fun_induction search spans time base size with
  | case1 base size small => omega
  | case2 base size large half starts inductionHypothesis =>
    rw [started, decide_eq_true_iff] at starts
    exact inductionHypothesis starts (by omega)
  | case3 base size large half starts inductionHypothesis =>
    rw [started, decide_eq_true_iff] at starts
    exact inductionHypothesis atLeast (by omega)

/-- There is a span for every keyframe, and it starts with it. -/
theorem spans_start (convert : W → V) (previous : V) (keys : List (Keyframe S W)) :
    (spansFrom convert previous keys).map Span.startTime = keys.map Keyframe.time := by
  fun_induction spansFrom convert previous keys with
  | case1 => rfl
  | case2 => rfl
  | case3 previous key next rest start finish inductionHypothesis =>
    rw [List.map_cons, inductionHypothesis]
    rfl

/-- A span has started by a time if its keyframe has come. -/
theorem starts_come (convert : W → V) (previous : V) (keys : List (Keyframe S W)) (time : S)
    (index : ℕ) : startsBy (spansFrom convert previous keys).toArray time index =
      keys[index]?.any fun key => decide (key.time ≤ time) := by
  have start := congrArg (·[index]?) (spans_start convert previous keys)
  simp only [List.getElem?_map] at start
  rw [startsBy, List.getElem?_toArray]
  cases span : (spansFrom convert previous keys)[index]? <;> cases key : keys[index]? <;>
    simp_all

/-- The spans of a track are those of its keyframes. -/
theorem keyed_spans [Blend S V] (convert : W → V) (default : V) (keys : List (Keyframe S W)) :
    (ofKeyframes convert default keys).spans = (spansFrom convert default keys).toArray := by
  rw [ofKeyframes]
  split
  next none => rw [none]; rfl
  next some => rw [some]

end Spans

section Times

variable [Scalar.Successive S] {time : S}

/-- With a keyframe all keyframes before it have come. -/
theorem come_before {keys : List (Keyframe S W)}
    (later : keys.IsChain fun key next => key.time < next.time) {first last : ℕ}
    (ordered : first ≤ last) {key other : Keyframe S W} (atFirst : keys[first]? = some key)
    (atLast : keys[last]? = some other) (come : other.time ≤ time) : key.time ≤ time := by
  induction ordered generalizing other with
  | refl =>
    obtain rfl := Option.some.inj (atFirst.symm.trans atLast)
    exact come
  | step ordered inductionHypothesis =>
    obtain ⟨bound, rfl⟩ := List.getElem?_eq_some_iff.mp atLast
    have next := List.isChain_iff_getElem.mp later _ bound
    exact inductionHypothesis (List.getElem?_eq_getElem (by omega))
      (Scalar.Successive.le_of_lt_of_le next come)

omit [Scalar.Successive S] in
/-- A keyframe comes before the next one. -/
theorem time_lt_next {keys : List (Keyframe S W)}
    (later : keys.IsChain fun key next => key.time < next.time) {index : ℕ}
    {key next : Keyframe S W} (found : keys[index]? = some key)
    (following : keys[index + 1]? = some next) : key.time < next.time := by
  obtain ⟨bound, rfl⟩ := List.getElem?_eq_some_iff.mp following
  obtain ⟨-, rfl⟩ := List.getElem?_eq_some_iff.mp found
  exact List.isChain_iff_getElem.mp later index bound

/-- When a time belongs to a keyframe, those that have come are this one and all before it. -/
theorem come_until {keys : List (Keyframe S W)}
    (later : keys.IsChain fun key next => key.time < next.time) {index : ℕ}
    (belongs : Belongs keys time index) (other : ℕ) :
    (keys[other]?.any fun key => decide (key.time ≤ time)) = decide (other ≤ index) := by
  obtain ⟨⟨key, found, come⟩, notCome⟩ := belongs
  cases atOther : keys[other]? with
  | none =>
    have bound := (List.getElem?_eq_some_iff.mp found).1
    have behind : index < other := bound.trans_le (List.getElem?_eq_none_iff.mp atOther)
    simp [behind]
  | some found' =>
    rw [Option.any_some, decide_eq_decide]
    constructor
    · intro otherCome
      by_contra behind
      have bound := (List.getElem?_eq_some_iff.mp atOther).1
      have next : keys[index + 1]? = some keys[index + 1] := List.getElem?_eq_getElem (by omega)
      have nextCome : keys[index + 1].time ≤ time :=
        come_before later (by omega : index + 1 ≤ other) next atOther otherCome
      exact Scalar.Successive.not_le_of_lt (notCome _ next) nextCome
    · intro ahead
      exact come_before later ahead atOther found come

/-- A time belongs to one keyframe at most. -/
theorem belongs_unique {keys : List (Keyframe S W)}
    (later : keys.IsChain fun key next => key.time < next.time) {first second : ℕ}
    (one : Belongs keys time first) (two : Belongs keys time second) : first = second := by
  have same (other : ℕ) : other ≤ first ↔ other ≤ second := by
    rw [← decide_eq_decide, ← come_until later one, come_until later two]
  exact le_antisymm ((same first).mp le_rfl) ((same second).mpr le_rfl)

variable [Blend S V]

/-- The value at a time is that of the span of the keyframe it belongs to. -/
theorem value_in_span (convert : W → V) (default : V) {keys : List (Keyframe S W)}
    (later : keys.IsChain fun key next => key.time < next.time) {index : ℕ}
    (belongs : Belongs keys time index) {span : Span S V}
    (found : (spansFrom convert default keys)[index]? = some span) :
    (ofKeyframes convert default keys).valueAt time =
      span.valueAt (ofKeyframes convert default keys).curved time := by
  have started (other : ℕ) := (starts_come convert default keys time other).trans
    (come_until later belongs other)
  have bound := (List.getElem?_eq_some_iff.mp found).1
  have last : search _ time 0 _ = index :=
    search_last started 0 (spansFrom convert default keys).toArray.size index.zero_le
      (by simpa using bound)
  rw [valueAt, spanAt?, keyed_spans, last]
  simp [started, found]

/-- Before the first keyframe the value is the one that it begins with. -/
theorem value_before (convert : W → V) (default : V) {keys : List (Keyframe S W)}
    (later : keys.IsChain fun key next => key.time < next.time) {first : Keyframe S W}
    (atFirst : keys[0]? = some first) (early : time < first.time) :
    (ofKeyframes convert default keys).valueAt time = begun convert default keys 0 := by
  have notCome (index : ℕ) : startsBy (spansFrom convert default keys).toArray time index = false := by
    rw [starts_come, Option.any_eq_false]
    intro key found
    rw [decide_eq_false_iff_not]
    intro come
    exact Scalar.Successive.not_le_of_lt early
      (come_before later index.zero_le atFirst found come)
  have span := spans_keys convert default keys 0
  rw [atFirst] at span
  rw [valueAt, spanAt?, keyed_spans]
  simp only [notCome, Bool.false_eq_true, ↓reduceIte, List.getElem?_toArray, span, Option.map_some]
  split <;> rfl

end Times

end Track

/-- The kinds of value that attributes have. -/
inductive Blend.Kind where
  | number
  | point
  | color
  | table
  | outline

namespace Blend.Kind

/-- The values of a kind. -/
abbrev Of (S : Type) : Kind → Type
  | number => S
  | point => Vec2 S
  | color => Rgba S
  | table => List S
  | outline => Vertices S

instance blend : (kind : Kind) → Blend S (kind.Of S)
  | number => inferInstanceAs (Blend S S)
  | point => inferInstanceAs (Blend S (Vec2 S))
  | color => inferInstanceAs (Blend S (Rgba S))
  | table => inferInstanceAs (Blend S (List S))
  | outline => inferInstanceAs (Blend S (Vertices S))

end Blend.Kind

namespace Exact

/-- Entries that do not change at the start, in lists of one length. -/
theorem entries_start {E : Type} {a b : List E} (same : a.length = b.length) {mix : E → E → E}
    (start : ∀ x y, mix x y = x) : List.zipWith mix a b = a := by
  apply List.ext_getElem
  · simp [same]
  · intro index inside _
    rw [List.getElem_zipWith, start]

/-- A blend of two numbers begins at the first. -/
theorem number_start (a b : ℝ) : Blend.number a b 0 = a :=
  (congrArg (a + ·) (mul_zero _)).trans (add_zero a)

/-- A blend of two lists of points, of one length, begins at the first. -/
theorem points_start {a b : List (Vec2 ℝ)} (same : a.length = b.length) :
    Blend.points a b 0 = a :=
  entries_start same fun p q => by rw [number_start, number_start]

/-- The start is before the end. -/
theorem started : (0 : ℝ) < @OfNat.ofNat ℝ 1 (Scalar.instOfNat 1) := by
  rw [numeral_one]
  exact one_pos

/-- On any way nothing has changed at the start. -/
theorem mix_start (kind : Blend.Kind) (a b : kind.Of ℝ) : Blend.mix a b (0 : ℝ) = a := by
  cases kind with
  | number => exact number_start a b
  | point => exact Vec2.ext (number_start a.x b.x) (number_start a.y b.y)
  | color =>
    exact Rgba.ext (number_start a.red b.red) (number_start a.green b.green)
      (number_start a.blue b.blue) (number_start a.alpha b.alpha)
  | table =>
    change Blend.table a b 0 = a
    rw [Blend.table, if_pos started]
    split
    case isTrue => rfl
    case isFalse same => exact entries_start (by simpa using same) number_start
  | outline =>
    change Blend.vertices a b 0 = a
    rw [Blend.vertices, if_pos started, if_pos started]
    split
    case isTrue same =>
      simp only [Blend.sameShape, Bool.and_eq_true, beq_iff_eq] at same
      rw [points_start same.1.1, points_start same.1.2, points_start same.2]
    case isFalse => rfl

/-- Tangents make no difference at the start either. -/
theorem mix_along_start (kind : Blend.Kind) (a b : kind.Of ℝ) (tangentOut tangentIn : Vec2 ℝ) :
    Blend.mixAlong a b (0 : ℝ) tangentOut tangentIn = a := by
  cases kind with
  | point =>
    change Blend.pointAlong a b 0 tangentOut tangentIn = a
    simp only [Blend.pointAlong, Vec2.scale, vector_sum, numeral]
    ext <;> simp
  | number => exact mix_start .number a b
  | color => exact mix_start .color a b
  | table => exact mix_start .table a b
  | outline => exact mix_start .outline a b

/-- The exact value of a span, within the span. -/
theorem span_value {V : Type} [Blend ℝ V] (span : Span ℝ V) {time : ℝ}
    (come : span.startTime ≤ time) (notCome : time < span.endTime) (curved : Bool) :
    let way := Easing.ease span.easeOut span.easeIn
      ((time - span.startTime) / (span.endTime - span.startTime))
    span.valueAt curved time = if span.hold then span.start
      else if curved then
        Blend.mixAlong span.start span.finish way span.tangentOut span.tangentIn
      else Blend.mix span.start span.finish way := by
  have lasts : 0 < span.endTime - span.startTime := by linarith
  have early : 0 ≤ (time - span.startTime) / (span.endTime - span.startTime) :=
    div_nonneg (by linarith) lasts.le
  have late : (time - span.startTime) / (span.endTime - span.startTime) ≤ 1 :=
    (div_le_one lasts).mpr (by linarith)
  have within : Scalar.clamp ((time - span.startTime) / (span.endTime - span.startTime)) 0 1 =
      (time - span.startTime) / (span.endTime - span.startTime) := by
    rw [Scalar.clamp, if_neg early.not_gt, if_neg late.not_gt]
  have moving : ¬ (span.endTime ≤ time || span.endTime - span.startTime ≤ 0) = true := by
    simp [notCome, come.trans_lt notCome]
  rw [Span.valueAt]
  simp only [numeral_zero, numeral_one, moving, within]
  rfl

/-- A span begins with its start. -/
theorem span_start {kind : Blend.Kind} (span : Span ℝ (kind.Of ℝ))
    (lasts : span.startTime < span.endTime) (curved : Bool) :
    span.valueAt curved span.startTime = span.start := by
  have begins : Easing.ease span.easeOut span.easeIn
      ((span.startTime - span.startTime) / (span.endTime - span.startTime)) = 0 := by
    rw [sub_self, zero_div, Easing.ease, numeral_zero, if_pos le_rfl]
  rw [span_value span le_rfl lasts, begins, mix_start, mix_along_start, ite_self, ite_self]

/-- Where nothing is said about easing, nothing is eased. -/
theorem uneased {t : ℝ} (early : 0 ≤ t) (late : t ≤ 1) :
    Easing.ease Vec2.zero (Vec2.both 1) t = t := by
  rw [Easing.ease]
  simp only [numeral_zero, numeral_one]
  split
  case isTrue before => exact le_antisymm early before
  case isFalse =>
    split
    case isTrue after => exact le_antisymm after late
    case isFalse => simp [Vec2.zero, Vec2.both]

/-- Every time from the first keyframe on belongs to a keyframe. -/
theorem belongs_somewhere {W : Type} {keys : List (Keyframe ℝ W)} {time : ℝ} {first : Keyframe ℝ W}
    (atFirst : keys[0]? = some first) (come : first.time ≤ time) :
    ∃ index, Track.Belongs keys time index := by
  induction keys generalizing first with
  | nil => cases atFirst
  | cons key rest inductionHypothesis =>
    obtain rfl : key = first := by simpa using atFirst
    cases second : rest[0]? with
    | none => exact ⟨0, ⟨key, rfl, come⟩, by simp [second]⟩
    | some next =>
      by_cases nextCome : next.time ≤ time
      · obtain ⟨index, belongs⟩ := inductionHypothesis second nextCome
        exact ⟨index + 1, by simpa [Track.Belongs] using belongs⟩
      · refine ⟨0, ⟨key, rfl, come⟩, fun other atNext => ?_⟩
        obtain rfl : next = other := by simpa [second] using atNext
        exact not_le.mp nextCome

/-- Points follow their tangents if any keyframe before the last has some. -/
theorem curved_keys {V W : Type} [Blend ℝ V] (convert : W → V) (default : V)
    (keys : List (Keyframe ℝ W)) : (Track.ofKeyframes convert default keys).curved =
      keys.dropLast.any fun key => Span.tangent key.tangentOut != Vec2.zero ||
        Span.tangent key.tangentIn != Vec2.zero := by
  have straight : (Vec2.zero == (Vec2.zero : Vec2 ℝ)) = true := by
    simp [BEq.beq, instBEqVec2.beq]
  have bends (previous : V) : (Track.spansFrom convert previous keys).any Span.bends =
      keys.dropLast.any fun key => Span.tangent key.tangentOut != Vec2.zero ||
        Span.tangent key.tangentIn != Vec2.zero := by
    fun_induction Track.spansFrom convert previous keys with
    | case1 => rfl
    | case2 previous last => simp [Span.bends, Span.still, straight]
    | case3 previous key next rest start finish inductionHypothesis =>
      rw [List.any_cons, inductionHypothesis, List.dropLast_cons_cons, List.any_cons]
      rfl
  rw [← bends default, Track.ofKeyframes]
  split
  next none => rw [none]; rfl
  next some => rw [some]

end Exact

namespace Track

/-- The value at every time, keyframe by keyframe. Each time from the first keyframe on belongs to
exactly one keyframe, which holds what it begins with or leads from there, at the eased fraction of
its time that has passed, to what it ends with. -/
theorem value_by_keyframes (kind : Blend.Kind) {W : Type} (convert : W → kind.Of ℝ)
    (default : kind.Of ℝ) (keys : List (Keyframe ℝ W)) (nonempty : keys ≠ [])
    (later : keys.IsChain fun key next => key.time < next.time) (time : ℝ) :
    let track := ofKeyframes convert default keys
    let start := begun convert default keys
    (∀ first ∈ keys.head?, time < first.time → track.valueAt time = start 0) ∧
    (∀ last ∈ keys.getLast?, last.time ≤ time → track.valueAt time = start (keys.length - 1)) ∧
    (∀ index : ℕ, ∀ key ∈ keys[index]?, track.valueAt key.time = start index) ∧
    (∀ index : ℕ, ∀ key ∈ keys[index]?, ∀ next ∈ keys[index + 1]?,
      key.time ≤ time → time < next.time →
      let finish := ((key.finish.or next.start).map convert).getD (start index)
      let way := Easing.ease (Span.control key.easeOut Vec2.zero)
        (Span.control key.easeIn (Vec2.both 1)) ((time - key.time) / (next.time - key.time))
      track.valueAt time = if key.hold then start index
        else if track.curved then Blend.mixAlong (start index) finish way
          (Span.tangent key.tangentOut) (Span.tangent key.tangentIn)
        else Blend.mix (start index) finish way) ∧
    (track.curved = keys.dropLast.any fun key => Span.tangent key.tangentOut != Vec2.zero ||
      Span.tangent key.tangentIn != Vec2.zero) ∧
    ∀ first ∈ keys.head?, if first.time ≤ time then ∃! index, Belongs keys time index
      else ∀ index, ¬ Belongs keys time index := by
  intro track start
  refine ⟨?_, ?_, ?_, ?_, Exact.curved_keys convert default keys, ?_⟩
  · intro first atFirst early
    rw [List.head?_eq_getElem?] at atFirst
    exact value_before convert default later atFirst early
  · intro last atLast come
    rw [List.getLast?_eq_getElem?] at atLast
    have positive := List.length_pos_iff.mpr nonempty
    have following : keys[keys.length - 1 + 1]? = none := List.getElem?_eq_none (by omega)
    have span := spans_keys convert default keys (keys.length - 1)
    rw [atLast, following] at span
    exact value_in_span convert default later (.last atLast following come) span
  · intro index key found
    have span := spans_keys convert default keys index
    rw [found] at span
    cases following : keys[index + 1]? with
    | none =>
      rw [following] at span
      exact value_in_span convert default later (.last found following le_rfl) span
    | some next =>
      rw [following] at span
      have notYet : key.time < next.time := time_lt_next later found following
      rw [value_in_span convert default later (.between found following le_rfl notYet) span]
      exact Exact.span_start (Span.between convert key next (start index)) notYet _
  · intro index key found next following come notCome finish way
    have span := spans_keys convert default keys index
    rw [found, following] at span
    have value := Exact.span_value (Span.between convert key next (start index)) come notCome
      track.curved
    rw [value_in_span convert default later (.between found following come notCome) span]
    simpa only [Span.between, Exact.numeral_one] using value
  · intro first atFirst
    rw [List.head?_eq_getElem?] at atFirst
    split
    case isTrue come =>
      obtain ⟨index, belongs⟩ := Exact.belongs_somewhere atFirst come
      exact ⟨index, belongs, fun other also => belongs_unique later also belongs⟩
    case isFalse notCome =>
      rintro index ⟨⟨key, found, come⟩, -⟩
      exact notCome (come_before later index.zero_le atFirst found come)

/-- A number that rises to ten, where it is held until it starts anew from five. -/
noncomputable def stairs : List (Keyframe ℝ ℝ) :=
  [ { time := 0, start := some 0, finish := some 10 }, { time := 10, hold := true },
    { time := 20, start := some 5 }, { time := 30 } ]

/-- The number on its way, where it is held, and after its end. -/
theorem value_by_keyframes_stairs :
    (ofKeyframes id (-1) stairs).valueAt (-5) = 0 ∧ (ofKeyframes id (-1) stairs).valueAt 4 = 4 ∧
      (ofKeyframes id (-1) stairs).valueAt 10 = 10 ∧
      (ofKeyframes id (-1) stairs).valueAt 15 = 10 ∧ (ofKeyframes id (-1) stairs).valueAt 40 = 5 := by
  have later : stairs.IsChain fun key next => key.time < next.time := by norm_num [stairs]
  have told := value_by_keyframes .number id (-1) stairs (by simp [stairs]) later
  have begins : begun id (-1) stairs 0 = 0 ∧ begun id (-1) stairs 1 = 10 ∧
      begun id (-1) stairs 3 = 5 := by
    simp [begun, stairs]
  refine ⟨?_, ?_, ?_, ?_, ?_⟩
  · exact ((told (-5)).1 _ rfl (by norm_num)).trans begins.1
  · have rising := (told 4).2.2.2.1 0 _ rfl _ rfl (by norm_num) (by norm_num)
    have straight : (ofKeyframes id (-1) stairs).curved = false := by
      refine (told 0).2.2.2.2.1.trans ?_
      simp [stairs, Span.tangent, bne, BEq.beq, instBEqVec2.beq]
    refine rising.trans ?_
    rw [straight, begins.1]
    change (0 : ℝ) + (10 - 0) * Easing.ease Vec2.zero (Vec2.both 1) ((4 - 0) / (10 - 0)) = 4
    rw [Exact.uneased (by norm_num) (by norm_num)]
    norm_num
  · exact ((told 0).2.2.1 1 _ rfl).trans begins.2.1
  · have held := (told 15).2.2.2.1 1 _ rfl _ rfl (by norm_num) (by norm_num)
    exact held.trans begins.2.1
  · exact ((told 40).2.1 _ rfl (by norm_num)).trans begins.2.2

end Track

end VectorMotion
