import RateCurve.Proofs.Graph.Scale

namespace RateCurve
open Double

namespace Curve

variable {g : Geometry} {now activity activity' : Json} {c c' : Curve} {as bs : List Json}

theorem humps_sublist [Machine] {scale : Float} (h : as.Sublist bs) {hs' : List Hump}
    (hb : humps g scale now bs = .ok hs') :
    ∃ hs, humps g scale now as = .ok hs ∧ hs.Sublist hs' := by
  induction h generalizing hs' with
  | slnil => exact ⟨hs', hb, .refl hs'⟩
  | cons event _ ih =>
    rcases humps_cons_eq_ok hb with ⟨-, hrest⟩ | ⟨age, hump, rest, -, -, -, hrest, rfl⟩
    · exact ih hrest
    · obtain ⟨hs, ha, hsub⟩ := ih hrest
      exact ⟨hs, ha, hsub.cons hump⟩
  | @cons_cons as bs event _ ih =>
    rcases humps_cons_eq_ok hb with
      ⟨hseen, hrest⟩ | ⟨age, hump, rest, ha, hat, hroom, hrest, rfl⟩
    · rw [humps_cons_of_not_isSeen hseen]
      exact ih hrest
    · obtain ⟨hs, hhs, hsub⟩ := ih hrest
      have hcons : humps g scale now (event :: as) = .ok (hump :: hs) := by
        rw [humps_cons_of_at? ha hat, hroom, hhs]
        rfl
      exact ⟨hump :: hs, hcons, hsub.cons_cons hump⟩

theorem draw_mono {count : Nat} {hs hs' : List Hump} (h : hs.Sublist hs')
    (h0 : ∀ hump ∈ hs', ∀ i, 0.0 ≤ hump.height i) :
    List.Forall₂ (· ≤ ·) (draw count hs).toList (draw count hs').toList := by
  apply List.forall₂_of_length_eq_of_get
  · simp only [Array.length_toList, size_draw]
  intro i hi hi'
  have hcount : i < count := by rwa [Array.length_toList, size_draw] at hi
  have hget := getElem?_draw hcount hs
  have hget' := getElem?_draw hcount hs'
  rw [← Array.getElem?_toList, List.getElem?_eq_getElem hi, Option.some_inj] at hget
  rw [← Array.getElem?_toList, List.getElem?_eq_getElem hi', Option.some_inj] at hget'
  rw [List.get_eq_getElem, List.get_eq_getElem, hget, hget']
  exact foldl_add_mono (h.filterMap _) (nonneg_of_adds? h0) zero_nonneg
    (Double.le_refl hasValue_zero)

/-- Where an activity has a curve, fewer events have one that is nowhere above it. -/
theorem build_of_sublist [Machine] (h : as.Sublist bs) (ha : activity.elements? = some as)
    (hb : activity'.elements? = some bs) (hc' : build g now activity' = .ok c') :
    ∃ c, build g now activity = .ok c ∧
    List.Forall₂ (· ≤ ·) c.samples.toList c'.samples.toList := by
  obtain ⟨resolution, events, hs', hr, he, hh', hroom, rfl⟩ := build_eq_ok_iff.1 hc'
  obtain rfl : bs = events := Option.some.inj (hb.symm.trans he)
  obtain ⟨hs, hh, hsub⟩ := humps_sublist h hh'
  exact ⟨_, build_eq_ok_iff.2 ⟨resolution, as, hs, hr, ha, hh, hroom, rfl⟩,
    draw_mono hsub (humps_height_nonneg hr hh')⟩

theorem exists_ge_of_mem {xs ys : List Float} (h : List.Forall₂ (· ≤ ·) xs ys) {x : Float}
    (hx : x ∈ xs) : ∃ y ∈ ys, x ≤ y := by
  induction h with
  | nil => cases hx
  | cons hxy _ ih =>
    rcases List.mem_cons.1 hx with rfl | hx
    · exact ⟨_, List.mem_cons_self, hxy⟩
    · obtain ⟨y, hy, hle⟩ := ih hx
      exact ⟨y, List.mem_cons_of_mem _ hy, hle⟩

section

variable [Machine] (h : build g now activity = .ok c) (h' : build g now activity' = .ok c')
  (hle : List.Forall₂ (· ≤ ·) c.samples.toList c'.samples.toList)

include h h' hle

theorem empty_of_le (hempty : c'.empty = true) : c.empty = true := by
  apply (build_empty_iff h).2
  intro x hx
  obtain ⟨y, hy, hxy⟩ := exists_ge_of_mem hle (Array.mem_toList_iff.2 hx)
  have hy0 := (build_empty_iff h').1 hempty y (Array.mem_toList_iff.1 hy)
  exact le_antisymm ((le_iff.1 hxy).2.2.trans_eq hy0) (value_nonneg (build_nonneg h x hx))

theorem peak_mono {p p' q q' : Float} (hp : 0.0 ≤ p) (hpp : p ≤ p')
    (hq : peak c.samples (.double p) = .double q)
    (hq' : peak c'.samples (.double p') = .double q') :
    q ≤ q' := by
  obtain ⟨r, hr, -, hzero, hkept, -⟩ := peak_of_build h hp
  obtain ⟨r', hr', hr0, -, hkept', hle'⟩ := peak_of_build h' (Double.le_trans hp hpp)
  obtain rfl : q = r := Number.double.inj (hq.symm.trans hr)
  obtain rfl : q' = r' := Number.double.inj (hq'.symm.trans hr')
  cases hempty : c.empty with
  | true =>
    -- The lower scale falls back to zero, whatever becomes of the other one.
    rw [hzero hempty]
    exact hr0
  | false =>
    have hempty' : c'.empty = false := by
      by_contra hne
      rw [empty_of_le h h' hle (Bool.of_not_eq_false hne)] at hempty
      cases hempty
    rcases (hkept hempty).1 with ⟨rfl, -⟩ | hmem
    · exact Double.le_trans hpp (hkept' hempty').2
    · obtain ⟨y, hy, hqy⟩ := exists_ge_of_mem hle (Array.mem_toList_iff.2 hmem)
      exact Double.le_trans hqy (hle' y (Array.mem_toList_iff.1 hy))

end

end Curve

/-- A frame that is nowhere above another one. -/
structure Frame.Within (f f' : Frame) : Prop where
  samples_le : List.Forall₂ (· ≤ ·) f.samples.toList f'.samples.toList
  empty : f'.empty = true → f.empty = true
  peak_le : f.peak ≤ f'.peak

namespace Graph

/-- A call at the same moment with some of the events left out. -/
structure Fewer (call call' : Json × Json) : Prop where
  now_eq : call.1 = call'.1
  events : ∃ as bs, call.2.elements? = some as ∧ call'.2.elements? = some bs ∧ as.Sublist bs

/-- A display with the same layout as another one and at most its scale. -/
structure Below (s s' : Graph) : Prop where
  geometry_eq : s.geometry = s'.geometry
  peak_le : s.peak ≤ s'.peak

section

variable [Machine]

theorem step_within {s s' : Graph} (h : Below s s') {call call' : Json × Json}
    (hc : Fewer call call') {f' : Frame} (hok : (s'.step call').1 = .ok f') :
    Below (s.step call).2 (s'.step call').2 ∧ ∃ f, (s.step call).1 = .ok f ∧ f.Within f' := by
  obtain ⟨now, activity⟩ := call
  obtain ⟨now', activity'⟩ := call'
  obtain ⟨rfl, as, bs, ha, hb, hsub⟩ := hc
  rcases s'.step_cases (now, activity') with
    ⟨fault, hstep'⟩ | ⟨c', f₁, hc', hstep', hnow, hsamples', hempty', hpeak'⟩
  · rw [hstep'] at hok
    cases hok
  rw [hstep'] at hok ⊢
  cases hok
  obtain ⟨c, hc, hle⟩ := Curve.build_of_sublist hsub ha hb hc'
  rw [← h.geometry_eq] at hc hc'
  -- The moment of the call could be read, so nothing is left that the other call could fail on.
  rcases step_of_build hc with ⟨cause, -, hcause, -⟩ | ⟨f, hstep, -, hsamples, hempty, hpeak⟩
  · cases hcause.symm.trans hnow
  rw [hstep]
  have hpp : f.peak ≤ f'.peak := Curve.peak_mono hc hc' hle s.peak_nonneg h.peak_le hpeak hpeak'
  have hwithin : f.Within f' := by
    constructor
    case samples_le => rwa [hsamples, hsamples']
    case empty =>
      rw [hempty, hempty']
      exact Curve.empty_of_le hc hc' hle
    case peak_le => exact hpp
  exact ⟨⟨h.geometry_eq, hpp⟩, f, rfl, hwithin⟩

theorem trace_within {s s' : Graph} (h : Below s s') {few many : List (Json × Json)}
    (hcalls : List.Forall₂ Fewer few many)
    (hok : ∀ outcome ∈ trace step s' many, ∃ f, outcome.1 = .ok f) :
    List.Forall₂ (fun o o' => ∃ f f', o.1 = .ok f ∧ o'.1 = .ok f' ∧ f.Within f')
      (trace step s few) (trace step s' many) := by
  induction hcalls generalizing s s' with
  | nil => exact .nil
  | cons hcall _ ih =>
    obtain ⟨⟨f', hf'⟩, hok⟩ := List.forall_mem_cons.1 hok
    obtain ⟨hbelow, f, hf, hwithin⟩ := step_within h hcall hf'
    exact .cons ⟨f, f', hf, hf', hwithin⟩ (ih hbelow hok)

/-- Two displays of one layout are shown the same moments, and the second one never fewer
events. If no call of the second run fails, none of the first one does, and each of its frames
is nowhere above the frame of the second run, neither in a sample nor in the scale. -/
theorem within_of_fewer (g : Geometry) {few many : List (Json × Json)}
    (hcalls : List.Forall₂ Fewer few many)
    (hok : ∀ outcome ∈ trace step { geometry := g } many, ∃ f, outcome.1 = .ok f) :
    List.Forall₂ (fun o o' => ∃ f f', o.1 = .ok f ∧ o'.1 = .ok f' ∧ f.Within f')
      (trace step { geometry := g } few) (trace step { geometry := g } many) :=
  trace_within ⟨rfl, Double.le_refl (hasValue_of_nonneg (peak_nonneg _))⟩ hcalls hok

end

/-- With no event left at the second call the first display falls back to zero, and the second
one does not. -/
theorem within_of_fewer_standard :
    let g : Geometry :=
      { Geometry.standard with window := 200, resolution_le_window := by decide }
    let few : List (Json × Json) :=
      [(.double 250.0, .arr [.double 0.0, .double 200.0]), (.double 300.0, .arr [])]
    let many : List (Json × Json) :=
      [(.double 250.0, .arr [.double 0.0, .str "now", .double 100.0, .double 200.0]),
        (.double 300.0, .arr [.double 290.0])]
    (trace step { geometry := g } few).map (·.1.toOption.map (·.empty)) =
      [some false, some true] ∧
    (trace step { geometry := g } many).map (·.1.toOption.map (·.empty)) =
      [some false, some false] ∧
    List.Forall₂ (fun o o' => ∃ f f', o.1 = .ok f ∧ o'.1 = .ok f' ∧ f.Within f')
      (trace step { geometry := g } few) (trace step { geometry := g } many) := by
  intro g few many
  have hshown : (trace step { geometry := g } many).map (·.1.toOption.map (·.empty)) =
      [some false, some false] := by decide +kernel
  refine ⟨by decide +kernel, hshown,
    within_of_fewer g (.cons ?_ (.cons ?_ .nil)) fun outcome hmem => ?_⟩
  · exact ⟨rfl, _, _, rfl, rfl, .cons_cons _ (.cons _ (.cons _ (.refl _)))⟩
  · exact ⟨rfl, _, _, rfl, rfl, List.nil_sublist _⟩
  · have hok := List.mem_map_of_mem (f := (·.1.toOption.map (·.empty))) hmem
    rw [hshown] at hok
    cases ho : outcome.1 with
    | error fault =>
      rw [ho] at hok
      simp only [Except.toOption, Option.map_none, List.mem_cons, reduceCtorEq,
        List.not_mem_nil, or_false] at hok
    | ok f => exact ⟨f, rfl⟩

end Graph

end RateCurve
