import RateCurve.Proofs.Curve.Horizon
import RateCurve.Proofs.Graph.Scale
import RateCurve.Proofs.Watch.Message

namespace RateCurve.Watch
open Double

section Fraction

variable {x peak q : Float}

/-- A finite sample is a fraction of any scale it does not exceed, also after rounding. -/
theorem div_bounds (hx : 0.0 ≤ x) (hle : x ≤ peak) (hpos : 0.0 < peak)
    (hf : peak.isFinite = true) : 0.0 ≤ x / peak ∧ x / peak ≤ 1.0 := by
  have hv := (le_iff.1 hle).2.2
  have hp := (pos_iff.1 hpos).2
  have hxf : x.isFinite = true := by
    refine isFinite_iff.2 ⟨hasValue_of_nonneg hx, ?_⟩
    rw [abs_of_nonneg (value_nonneg hx)]
    exact hv.trans_lt (lt_of_abs_lt (isFinite_iff.1 hf).2)
  have hnear := nearestTo_div hxf hf hp.ne'
  have hone : value x / value peak ≤ value 1.0 := by
    rw [value_one]
    exact (div_le_one hp).2 hv
  exact ⟨hnear.nonneg (div_nonneg (value_nonneg hx) hp.le),
    le_iff.2 ⟨hnear.hasValue, hasValue_of_isFinite isFinite_one, hnear.ge hone⟩⟩

theorem makeRoom_marks [Machine] {n : ℤ} (h0 : 0 ≤ n) (h : n ≤ 60) :
    Capacity.makeRoom 1 n = .ok () := by
  have hmemory : 4096 ≤ Machine.memory := Machine.page_le
  rw [Capacity.makeRoom, pow_eq, if_neg (by omega), if_neg (by omega)]

theorem marks_of_fraction [Machine] (h0 : 0.0 ≤ q) (h1 : q ≤ 1.0) :
    ∃ n, marks q = .ok n ∧ n ≤ barWidth := by
  have hwidth : value (ofInt barWidth) = 60 := value_ofInt (n := 60) (by norm_num)
  have hwidthf : (ofInt barWidth).isFinite = true := rfl
  have hv0 := value_nonneg h0
  have hv1 : value q ≤ 1 := value_one ▸ (le_iff.1 h1).2.2
  have hqf : q.isFinite = true := by
    refine isFinite_iff.2 ⟨hasValue_of_nonneg h0, ?_⟩
    rw [abs_of_nonneg hv0]
    exact hv1.trans_lt one_lt_limit
  have hnear := nearestTo_mul hqf hwidthf
  rw [hwidth] at hnear
  have hle : value q * 60 ≤ value (ofInt barWidth) := by
    rw [hwidth]
    linarith
  have hprodf := hnear.isFinite isFinite_zero hwidthf (by rw [value_zero]; positivity) hle
  have hprod0 := value_nonneg (hnear.nonneg (by positivity))
  have hprod : value (q * ofInt barWidth) ≤ 60 := hwidth ▸ hnear.ge hle
  have hfloor0 : 0 ≤ ⌊value (q * ofInt barWidth)⌋ := Int.floor_nonneg.2 hprod0
  have hfloor : ⌊value (q * ofInt barWidth)⌋ ≤ 60 := Int.floor_le_iff.2 (by push_cast; linarith)
  refine ⟨⌊value (q * ofInt barWidth)⌋.toNat, ?_, Int.toNat_le.2 hfloor⟩
  rw [marks, truncate_of_nonneg hprodf hprod0]
  change
    ((Capacity.makeRoom 1 ⌊value (q * ofInt barWidth)⌋).mapError Fault.ofCapacity >>= _) = _
  rw [makeRoom_marks hfloor0 hfloor]
  rfl

end Fraction

section Line

def bar (n : ℕ) : List Char :=
  Decimal.padRight barWidth ' ' (List.replicate n '#')

theorem length_bar {n : ℕ} (h : n ≤ barWidth) : (bar n).length = barWidth := by
  rw [bar, Decimal.padRight, List.length_append, List.length_replicate, List.length_replicate]
  omega

theorem count_bar (n : ℕ) : (bar n).count '#' = n := by
  rw [bar, Decimal.padRight, List.count_append, List.count_replicate_self, List.count_replicate,
    if_neg (by decide), Nat.add_zero]

def shownColumn (x : Float) : List Char :=
  Decimal.padLeft 8 ' ' (Decimal.fixed 4 x)

def drawn (peak newest : Float) (n : ℕ) : List Char :=
  "[GRAPH] peak=".toList ++ shownColumn peak ++ " newest=".toList ++ shownColumn newest ++
    " |".toList ++ bar n ++ ['|']

variable {f : Frame} {x : Float} {n : ℕ}

theorem line_of_empty [Machine] (h : f.empty = true) :
    line f.text = .ok "[GRAPH] (empty)".toList := by
  rw [line, f.message?_text]
  change (if f.empty = true then _ else _) = _
  rw [if_pos h]
  rfl

theorem first_samples (h : f.samples[0]? = some x) :
    first (.arr (f.samples.toList.map .double)) = .ok (.double x) := by
  rw [← Array.getElem?_toList, ← List.head?_eq_getElem?] at h
  rw [first, List.head?_map, h]
  rfl

theorem newest_samples (h : f.samples[0]? = some x) (hpos : 0.0 < f.peak) :
    newest (.arr (f.samples.toList.map .double)) (.double f.peak) = .ok (x / f.peak) := by
  have htrue : (Json.double f.peak : Value).isTrue = true := by
    change (!(f.peak == 0.0)) = true
    rw [Bool.not_eq_true', ← Bool.not_eq_true, beq_zero_iff]
    exact fun hzero => (pos_iff.1 hpos).2.ne' hzero.2
  rw [newest, if_pos htrue, first_samples h]
  rfl

theorem line_of_marks [Machine] (h : f.samples[0]? = some x) (hpos : 0.0 < f.peak)
    (he : f.empty = false) (hn : marks (x / f.peak) = .ok n) :
    line f.text = .ok (drawn f.peak x n) := by
  rw [line, f.message?_text]
  change (if f.empty = true then _ else _) = _
  rw [if_neg (by rw [he]; decide), newest_samples h hpos]
  change (marks (x / f.peak) >>= _) = _
  rw [hn]
  change (first (.arr (f.samples.toList.map .double)) >>= _) = _
  rw [first_samples h]
  rfl

end Line

section Run

variable [Machine]

/-- The line that a viewer draws for a frame. An empty frame has no bar, and any other frame has
one of exactly the full width. -/
structure Draws (f : Frame) (l : List Char) : Prop where
  line_eq : line f.text = .ok l
  of_empty : f.empty = true → l = "[GRAPH] (empty)".toList
  newest : ∃ x, f.samples[0]? = some x ∧
    (f.empty = false → 0.0 < f.peak ∧ 0.0 ≤ x / f.peak ∧ x / f.peak ≤ 1.0 ∧
      ∃ n ≤ barWidth, marks (x / f.peak) = .ok n ∧ l = drawn f.peak x n ∧
        (bar n).length = barWidth ∧ (bar n).count '#' = n)

variable {f : Frame} {prior : Float}

theorem exists_draws (h : f.WellFormed prior) (hsize : 0 < f.samples.size) :
    ∃ l, Draws f l := by
  have hx : f.samples[0]? = some f.samples[0] := Array.getElem?_eq_getElem hsize
  have hmem : f.samples[0] ∈ f.samples := Array.getElem_mem hsize
  cases he : f.empty with
  | true =>
    refine ⟨_, line_of_empty he, fun _ => rfl, f.samples[0], hx, fun hne => ?_⟩
    rw [he] at hne
    cases hne
  | false =>
    have hpos := h.peak_pos he
    have hx0 := (h.samples_bounds _ hmem).2
    obtain ⟨h0, h1⟩ := div_bounds hx0 (h.le_peak _ hmem) hpos h.peak_finite
    obtain ⟨n, hn, hwidth⟩ := marks_of_fraction h0 h1
    refine ⟨drawn f.peak f.samples[0] n, line_of_marks hx hpos he hn, fun hempty => ?_,
      f.samples[0], hx, fun _ => ⟨hpos, h0, h1, n, hwidth, hn, rfl, length_bar hwidth,
      count_bar n⟩⟩
    rw [he] at hempty
    cases hempty

theorem frames_of_draws {shown : List Frame} {lines : List (List Char)}
    (h : List.Forall₂ Draws shown lines) :
    frames (shown.map Frame.text) = { shown := lines.map (·.map .char) } := by
  induction h with
  | nil => rfl
  | cons hf _ ih =>
    rw [List.map_cons, frames, hf.line_eq, ih]
    rfl

/-- A viewer draws all the frames that a display shows in any run of calls, one line each. -/
theorem draws_of_run (g : Geometry) (calls : List (Json × Json)) :
    let shown := Graph.frames (trace Graph.step { geometry := g } calls)
    ∃ lines, List.Forall₂ Draws shown lines ∧
      listen (shown.map Frame.text) =
        { shown := greeting.toList.map .char :: lines.map (·.map .char) } := by
  intro shown
  have hstart : ({ geometry := g } : Graph).peak.isFinite = true := by
    change (0.0 : Float).isFinite = true
    exact isFinite_zero
  have hdraws : ∀ f ∈ shown, ∃ l, Draws f l := by
    intro f hf
    obtain ⟨prior, hwell, hsize⟩ := Graph.wellFormed_of_mem_frames hstart hf
    exact exists_draws hwell (hsize ▸ g.count_pos)
  choose! lineOf hlineOf using hdraws
  have hlines : List.Forall₂ Draws shown (shown.map lineOf) := by
    rw [List.forall₂_map_right_iff, List.forall₂_same]
    exact hlineOf
  refine ⟨shown.map lineOf, hlines, ?_⟩
  rw [listen, frames_of_draws hlines]
  rfl

end Run

end RateCurve.Watch
