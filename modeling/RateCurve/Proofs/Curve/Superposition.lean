import RateCurve.Proofs.Curve.Permutation
import RateCurve.Proofs.Double.Sign

namespace RateCurve

/-- The third list is the first two put together, each of them in its order. -/
inductive Interleaves {α : Type} : List α → List α → List α → Prop where
  | nil : Interleaves [] [] []
  | left {x : α} {xs ys zs : List α} : Interleaves xs ys zs → Interleaves (x :: xs) ys (x :: zs)
  | right {y : α} {xs ys zs : List α} : Interleaves xs ys zs →
      Interleaves xs (y :: ys) (y :: zs)

namespace Interleaves

variable {α β : Type} {xs ys zs : List α}

theorem symm (h : Interleaves xs ys zs) : Interleaves ys xs zs := by
  induction h with
  | nil => exact .nil
  | left _ ih => exact ih.right
  | right _ ih => exact ih.left

theorem mem_iff (h : Interleaves xs ys zs) {x : α} : x ∈ zs ↔ x ∈ xs ∨ x ∈ ys := by
  induction h with
  | nil => simp only [List.not_mem_nil, or_self]
  | left _ ih => rw [List.mem_cons, List.mem_cons, ih, or_assoc]
  | right _ ih => rw [List.mem_cons, List.mem_cons, ih, or_left_comm]

theorem eq_left (h : Interleaves xs [] zs) : zs = xs := by
  generalize hys : ([] : List α) = ys at h
  induction h with
  | nil => rfl
  | left _ ih => rw [ih hys]
  | right _ _ => cases hys

theorem filterMap (f : α → Option β) (h : Interleaves xs ys zs) :
    Interleaves (xs.filterMap f) (ys.filterMap f) (zs.filterMap f) := by
  induction h with
  | nil => exact .nil
  | @left x _ _ _ _ ih =>
    rw [List.filterMap_cons, List.filterMap_cons]
    cases f x with
    | none => exact ih
    | some y => exact ih.left
  | @right x _ _ _ _ ih =>
    rw [List.filterMap_cons, List.filterMap_cons]
    cases f x with
    | none => exact ih
    | some y => exact ih.right

end Interleaves

namespace Curve
open Double

section

variable {g : Geometry} {now event : Json} {i : Nat} {as bs cs : List Json} {a b c : Curve}

def span? (g : Geometry) (now event : Json) : Option Span := do
  let age ← age? now event
  let centre := age * (1.0 / ofInt g.resolution)
  (Span.around centre (Spread.width g.floor centre) g.count).toOption.join

def Covers (g : Geometry) (now event : Json) (i : Nat) : Prop :=
  ∃ span, span? g now event = some span ∧ i ∈ span.toList

theorem contribution?_of_not_covers (h : ¬Covers g now event i) :
    contribution? g (1.0 / ofInt g.resolution) now i event = none := by
  cases ha : age? now event with
  | none => simp only [contribution?, ha, Option.bind_eq_bind, Option.bind_none]
  | some age =>
    simp only [Covers, span?, contribution?, ha, Option.bind_eq_bind, Option.bind_some] at h ⊢
    generalize (Span.around (age * (1.0 / ofInt g.resolution))
      (Spread.width g.floor (age * (1.0 / ofInt g.resolution))) g.count).toOption.join =
      span at h ⊢
    cases span with
    | none => rfl
    | some span => exact if_neg fun hspan => h ⟨span, rfl, Span.mem_toList.2 hspan⟩

theorem contributions_eq_nil (h : ∀ event ∈ as, ¬Covers g now event i) :
    contributions g now i as = [] :=
  List.filterMap_eq_nil_iff.2 fun event hmem => contribution?_of_not_covers (h event hmem)

variable [Machine]

/-- Where no event of one side covers a sample, the other side makes it what it is. -/
theorem foldl_contributions_of_not_covers (hcs : Interleaves as bs cs)
    (hb : ∀ event ∈ bs, ¬Covers g now event i) (ha : build g now (.arr as) = .ok a) :
    Unsigned ((contributions g now i as).foldl (· + ·) 0.0) ∧
      (contributions g now i bs).foldl (· + ·) 0.0 = 0.0 ∧
      contributions g now i cs = contributions g now i as := by
  have hnil := contributions_eq_nil hb
  have hmerged := hcs.filterMap (contribution? g (1.0 / ofInt g.resolution) now i)
  change Interleaves _ (contributions g now i bs) _ at hmerged
  rw [hnil] at hmerged
  refine ⟨unsigned_zero.foldl_add (contributions_nonneg ha), ?_, hmerged.eq_left⟩
  rw [hnil]
  rfl

theorem foldl_contributions_add (hcs : Interleaves as bs cs)
    (hdisjoint : ∀ a ∈ as, ∀ b ∈ bs, ¬(Covers g now a i ∧ Covers g now b i))
    (ha : build g now (.arr as) = .ok a) (hb : build g now (.arr bs) = .ok b) :
    (contributions g now i cs).foldl (· + ·) 0.0 =
      (contributions g now i as).foldl (· + ·) 0.0 +
        (contributions g now i bs).foldl (· + ·) 0.0 := by
  by_cases hcovers : ∃ event ∈ as, Covers g now event i
  · obtain ⟨event, hmem, hevent⟩ := hcovers
    have hnot : ∀ b ∈ bs, ¬Covers g now b i := fun b hb hcovers =>
      hdisjoint event hmem b hb ⟨hevent, hcovers⟩
    obtain ⟨hsum, hzero, heq⟩ := foldl_contributions_of_not_covers hcs hnot ha
    rw [heq, hzero, hsum.add_eq_left hasValue_zero value_zero]
  · push Not at hcovers
    obtain ⟨hsum, hzero, heq⟩ := foldl_contributions_of_not_covers hcs.symm hcovers hb
    rw [heq, hzero, hsum.zero_add]

theorem samples_eq_zipWith (hcs : Interleaves as bs cs)
    (hdisjoint : ∀ i, ∀ a ∈ as, ∀ b ∈ bs, ¬(Covers g now a i ∧ Covers g now b i))
    (ha : build g now (.arr as) = .ok a) (hb : build g now (.arr bs) = .ok b)
    (hc : build g now (.arr cs) = .ok c) :
    c.samples = Array.zipWith (· + ·) a.samples b.samples := by
  apply Array.ext_getElem?
  intro i
  rw [Array.getElem?_zipWith]
  by_cases hi : i < g.count
  · rw [getElem?_samples ha hi, getElem?_samples hb hi, getElem?_samples hc hi,
      foldl_contributions_add hcs (hdisjoint i) ha hb]
  · have hi' := Nat.le_of_not_lt hi
    rw [Array.getElem?_eq_none ((size_of_build ha).trans_le hi'),
      Array.getElem?_eq_none ((size_of_build hc).trans_le hi')]

theorem empty_iff_of_interleaves (hcs : Interleaves as bs cs)
    (ha : build g now (.arr as) = .ok a) (hb : build g now (.arr bs) = .ok b)
    (hc : build g now (.arr cs) = .ok c) :
    c.empty = true ↔ a.empty = true ∧ b.empty = true := by
  have hmem (i : Nat) {y : Float} : y ∈ contributions g now i cs ↔
      y ∈ contributions g now i as ∨ y ∈ contributions g now i bs :=
    (hcs.filterMap _).mem_iff
  rw [empty_iff_forall_contributions ha, empty_iff_forall_contributions hb,
    empty_iff_forall_contributions hc]
  simp only [hmem, or_imp, forall_and]

/-- The curve of two activities of which no sample shows an event of both is the sum of their
curves up to the last bit, however the events alternate. -/
theorem build_interleaves (hcs : Interleaves as bs cs)
    (hdisjoint : ∀ i, ∀ a ∈ as, ∀ b ∈ bs, ¬(Covers g now a i ∧ Covers g now b i))
    (hc : build g now (.arr cs) = .ok c) :
    ∃ a b, build g now (.arr as) = .ok a ∧ build g now (.arr bs) = .ok b ∧
      c.samples = Array.zipWith (· + ·) a.samples b.samples ∧
      (c.empty = true ↔ a.empty = true ∧ b.empty = true) := by
  obtain ⟨a, ha⟩ := build_isOk_of_subset (fun _ hmem => hcs.mem_iff.2 (.inl hmem)) ⟨c, hc⟩
  obtain ⟨b, hb⟩ := build_isOk_of_subset (fun _ hmem => hcs.mem_iff.2 (.inr hmem)) ⟨c, hc⟩
  exact ⟨a, b, ha, hb, samples_eq_zipWith hcs hdisjoint ha hb hc,
    empty_iff_of_interleaves hcs ha hb hc⟩

end

/-- Two new events, with a text between them, and an old one. -/
theorem build_interleaves_old :
    ∃ g : Geometry, ∃ a b c, g.count = 12 ∧
      build g (.double 10.0) (.arr [.double 10.0, .double 0.0, .str "now", .double 10.0]) =
        .ok c ∧
      build g (.double 10.0) (.arr [.double 10.0, .str "now", .double 10.0]) = .ok a ∧
      build g (.double 10.0) (.arr [.double 0.0]) = .ok b ∧
      c.samples = Array.zipWith (· + ·) a.samples b.samples := by
  let g : Geometry := ⟨12, 1, 0.5, by decide, by decide, by decide +kernel⟩
  let as : List Json := [.double 10.0, .str "now", .double 10.0]
  let bs : List Json := [.double 0.0]
  let cs : List Json := [.double 10.0, .double 0.0, .str "now", .double 10.0]
  have hcs : Interleaves as bs cs := .left (.right (.left (.left .nil)))
  have has : ∀ a ∈ as, ∀ s ∈ span? g (.double 10.0) a, s = ⟨0, 1⟩ := by decide +kernel
  have hbs : ∀ b ∈ bs, ∀ s ∈ span? g (.double 10.0) b, s = ⟨2, 11⟩ := by decide +kernel
  have hdisjoint : ∀ i, ∀ a ∈ as, ∀ b ∈ bs,
      ¬(Covers g (.double 10.0) a i ∧ Covers g (.double 10.0) b i) := by
    rintro i a ha b hb ⟨⟨s, hs, hi⟩, t, ht, hi'⟩
    rw [has a ha s hs, Span.mem_toList] at hi
    rw [hbs b hb t ht, Span.mem_toList] at hi'
    simp only at hi hi'
    omega
  have hok : (build g (.double 10.0) (.arr cs)).isOk = true := by decide +kernel
  cases hc : build g (.double 10.0) (.arr cs) with
  | error e =>
    rw [hc] at hok
    cases hok
  | ok c =>
    obtain ⟨a, b, ha, hb, hsamples, -⟩ := build_interleaves hcs hdisjoint hc
    exact ⟨g, a, b, c, by decide +kernel, hc, ha, hb, hsamples⟩

end Curve

end RateCurve
