import RateCurve.Curve
import RateCurve.Proofs.Except

namespace RateCurve

theorem getElem?_foldl_modify {f : Nat → Float} {is : List Nat} (h : is.Nodup)
    (samples : Array Float) (i : Nat) :
    (is.foldl (fun samples j => samples.modify j (· + f j)) samples)[i]? =
      if i ∈ is then samples[i]?.map (· + f i) else samples[i]? := by
  induction is generalizing samples with
  | nil => simp only [List.foldl_nil, List.not_mem_nil, if_false]
  | cons j is ih =>
    obtain ⟨hj, his⟩ := List.nodup_cons.1 h
    rw [List.foldl_cons, ih his, Array.getElem?_modify]
    by_cases hij : j = i
    · subst hij
      simp only [hj, if_false, if_true, List.mem_cons_self]
    · simp only [List.mem_cons, hij, Ne.symm hij, if_false, false_or]

namespace Span

theorem nodup_toList (s : Span) : s.toList.Nodup :=
  List.nodup_range'

end Span

namespace Hump

/-- What a hump adds to a sample, if it spans it. -/
def adds? (h : Hump) (i : Nat) : Option Float :=
  if h.span.first ≤ i ∧ (i : Int) ≤ h.span.last then some (h.height i) else none

theorem height_eq_of_adds? {h : Hump} {i : Nat} {y : Float} (hy : h.adds? i = some y) :
    h.height i = y := by
  rw [adds?] at hy
  split at hy
  · exact Option.some.inj hy
  · cases hy

theorem getElem?_addTo (h : Hump) (samples : Array Float) (i : Nat) :
    (h.addTo samples)[i]? = samples[i]?.map fun x => (h.adds? i).elim x (x + ·) := by
  rw [addTo, getElem?_foldl_modify h.span.nodup_toList]
  simp only [adds?, Span.mem_toList]
  split
  · rfl
  · exact Option.map_id'.symm

end Hump

namespace Curve

/-- What an event adds to sample `i`, if anything: an event that has an age adds the height of a
bell to the samples within the bounds of that bell. -/
def contribution? (g : Geometry) (scale : Float) (now : Json) (i : Nat) (event : Json) :
    Option Float := do
  let age ← age? now event
  let centre := age * scale
  let width := Spread.width g.floor centre
  let span ← (Span.around centre width g.count).toOption.join
  if span.first ≤ i ∧ (i : Int) ≤ span.last then
    some (bell centre (1.0 / width) (Double.ofInt i))
  else none

/-- Whether an event has an age and a bell that does not begin after the last sample. -/
def isSeen (g : Geometry) (scale : Float) (now event : Json) : Bool :=
  match age? now event with
  | none => false
  | some age =>
    let centre := age * scale
    !(Span.around centre (Spread.width g.floor centre) g.count matches .ok none)

theorem getElem?_foldl_addTo (humps : List Hump) (samples : Array Float) (i : Nat) :
    (humps.foldl (fun samples h => h.addTo samples) samples)[i]? =
      samples[i]?.map fun x => (humps.filterMap (·.adds? i)).foldl (· + ·) x := by
  induction humps generalizing samples with
  | nil => simp only [List.foldl_nil, List.filterMap_nil, Option.map_id']
  | cons h humps ih =>
    rw [List.foldl_cons, ih, h.getElem?_addTo, Option.map_map]
    cases hi : h.adds? i with
    | none => simp only [List.filterMap_cons, hi]; rfl
    | some y => simp only [List.filterMap_cons, hi]; rfl

theorem getElem?_draw {count i : Nat} (hi : i < count) (humps : List Hump) :
    (draw count humps)[i]? = some ((humps.filterMap (·.adds? i)).foldl (· + ·) 0.0) := by
  rw [draw, getElem?_foldl_addTo, Array.getElem?_replicate, if_pos hi, Option.map_some]

section

variable {g : Geometry} {scale : Float} {now event : Json}

theorem at?_eq (centre : Float) :
    Hump.at? g centre =
      (Span.around centre (Spread.width g.floor centre) g.count).map
        (Option.map fun span => ⟨centre, 1.0 / Spread.width g.floor centre, span⟩) := by
  simp only [Hump.at?]
  cases Span.around centre (Spread.width g.floor centre) g.count <;> rfl

theorem eq_of_at? {centre : Float} {hump : Hump} (h : Hump.at? g centre = .ok (some hump)) :
    Span.around centre (Spread.width g.floor centre) g.count = .ok (some hump.span) ∧
      hump.centre = centre ∧ hump.sharpness = 1.0 / Spread.width g.floor centre := by
  rw [at?_eq, map_eq_ok] at h
  obtain ⟨s, haround, hmap⟩ := h
  obtain ⟨span, rfl, rfl⟩ := Option.map_eq_some_iff.1 hmap
  exact ⟨haround, rfl, rfl⟩

theorem contribution?_of_age? {age : Float} (h : age? now event = some age) (i : Nat) :
    contribution? g scale now i event =
      (Hump.at? g (age * scale)).toOption.join.bind (·.adds? i) := by
  simp only [contribution?, h, at?_eq, Option.bind_eq_bind, Option.bind_some]
  rcases Span.around (age * scale) (Spread.width g.floor (age * scale)) g.count with e |
    _ | span <;> rfl

theorem at?_of_not_isSeen {age : Float} (ha : age? now event = some age)
    (h : isSeen g scale now event = false) : Hump.at? g (age * scale) = .ok none := by
  simp only [isSeen, ha] at h
  rw [at?_eq]
  generalize Span.around (age * scale) (Spread.width g.floor (age * scale)) g.count = s at h ⊢
  rcases s with e | _ | span
  · cases h
  · rfl
  · cases h

theorem at?_of_isSeen (h : isSeen g scale now event = true) :
    ∃ age, age? now event = some age ∧
      ((∃ e, Hump.at? g (age * scale) = .error e) ∨
        ∃ hump, Hump.at? g (age * scale) = .ok (some hump)) := by
  cases ha : age? now event with
  | none => simp only [isSeen, ha, Bool.false_eq_true] at h
  | some age =>
    refine ⟨age, rfl, ?_⟩
    simp only [isSeen, ha] at h
    rw [at?_eq]
    generalize Span.around (age * scale) (Spread.width g.floor (age * scale)) g.count = s at h ⊢
    rcases s with e | _ | span
    · exact .inl ⟨e, rfl⟩
    · cases h
    · exact .inr ⟨_, rfl⟩

theorem contribution?_of_not_isSeen (h : isSeen g scale now event = false) (i : Nat) :
    contribution? g scale now i event = none := by
  cases ha : age? now event with
  | none => simp only [contribution?, ha, Option.bind_eq_bind, Option.bind_none]
  | some age => rw [contribution?_of_age? ha, at?_of_not_isSeen ha h]; rfl

variable [Machine]

theorem humps_cons_of_not_isSeen (h : isSeen g scale now event = false) (events : List Json) :
    humps g scale now (event :: events) = humps g scale now events := by
  rw [humps]
  cases ha : age? now event with
  | none => rfl
  | some age =>
    simp only [at?_of_not_isSeen ha h]
    change (humps g scale now events >>= fun hs => pure hs) = _
    exact bind_pure _

theorem humps_cons_of_at? {age : Float} {hump : Hump} (ha : age? now event = some age)
    (h : Hump.at? g (age * scale) = .ok (some hump)) (events : List Json) :
    humps g scale now (event :: events) = do
      g.makeRoom
      let hs ← humps g scale now events
      return hump :: hs := by
  simp only [humps, ha, h]
  rfl

theorem humps_cons_of_at?_error {age : Float} {e : RangeError} (ha : age? now event = some age)
    (h : Hump.at? g (age * scale) = .error e) (events : List Json) :
    humps g scale now (event :: events) = .error (.range e) := by
  simp only [humps, ha, h]
  rfl

theorem humps_cons_eq_ok {events : List Json} {hs : List Hump}
    (h : humps g scale now (event :: events) = .ok hs) :
    isSeen g scale now event = false ∧ humps g scale now events = .ok hs ∨
      ∃ age hump rest, age? now event = some age ∧ Hump.at? g (age * scale) = .ok (some hump) ∧
        g.makeRoom = .ok () ∧ humps g scale now events = .ok rest ∧ hs = hump :: rest := by
  cases hseen : isSeen g scale now event with
  | false =>
    rw [humps_cons_of_not_isSeen hseen] at h
    exact .inl ⟨rfl, h⟩
  | true =>
    obtain ⟨age, ha, ⟨e, he⟩ | ⟨hump, hh⟩⟩ := at?_of_isSeen hseen
    · rw [humps_cons_of_at?_error ha he] at h
      cases h
    · rw [humps_cons_of_at? ha hh] at h
      simp only [bind_eq_ok, pure_eq_ok] at h
      obtain ⟨_, hroom, rest, hrest, rfl⟩ := h
      exact .inr ⟨age, hump, rest, ha, hh, hroom, hrest, rfl⟩

theorem exists_at?_of_mem_humps {events : List Json} {hs : List Hump}
    (h : humps g scale now events = .ok hs) {hump : Hump} (hmem : hump ∈ hs) :
    ∃ event ∈ events, ∃ age, age? now event = some age ∧
      Hump.at? g (age * scale) = .ok (some hump) := by
  induction events generalizing hs with
  | nil =>
    cases h
    cases hmem
  | cons event events ih =>
    rcases humps_cons_eq_ok h with ⟨-, hrest⟩ | ⟨age, first, rest, ha, hat, -, hrest, rfl⟩
    · obtain ⟨e, he, hage⟩ := ih hrest hmem
      exact ⟨e, List.mem_cons_of_mem _ he, hage⟩
    · rcases List.mem_cons.1 hmem with rfl | hmem
      · exact ⟨event, List.mem_cons_self, age, ha, hat⟩
      · obtain ⟨e, he, hage⟩ := ih hrest hmem
        exact ⟨e, List.mem_cons_of_mem _ he, hage⟩

theorem humps_eq_nil_iff {events : List Json} {hs : List Hump}
    (h : humps g scale now events = .ok hs) :
    hs = [] ↔ ∀ event ∈ events, isSeen g scale now event = false := by
  induction events generalizing hs with
  | nil =>
    cases h
    exact ⟨fun _ => nofun, fun _ => rfl⟩
  | cons event events ih =>
    rw [List.forall_mem_cons]
    rcases humps_cons_eq_ok h with ⟨hseen, hrest⟩ | ⟨age, hump, rest, ha, hat, -, hrest, rfl⟩
    · rw [ih hrest, and_iff_right hseen]
    · constructor
      · nofun
      · rintro ⟨hseen, -⟩
        cases (at?_of_not_isSeen ha hseen).symm.trans hat

/-- Where there is room for the samples, the humps can be worked out just if each of them
can. -/
theorem humps_isOk_iff {events : List Json} (hroom : g.makeRoom = .ok ()) :
    (∃ hs, humps g scale now events = .ok hs) ↔
      ∀ event ∈ events, ∀ age, age? now event = some age →
        ∃ hump, Hump.at? g (age * scale) = .ok hump := by
  induction events with
  | nil => exact ⟨fun _ => nofun, fun _ => ⟨[], rfl⟩⟩
  | cons event events ih =>
    rw [List.forall_mem_cons, ← ih]
    constructor
    · rintro ⟨hs, h⟩
      rcases humps_cons_eq_ok h with ⟨hseen, hrest⟩ | ⟨age, hump, rest, ha, hh, -, hrest, -⟩
      · exact ⟨fun age ha => ⟨none, at?_of_not_isSeen ha hseen⟩, hs, hrest⟩
      · refine ⟨fun age' ha' => ⟨some hump, ?_⟩, rest, hrest⟩
        rwa [Option.some.inj (ha'.symm.trans ha)]
    · rintro ⟨hevent, hs, hhs⟩
      cases hseen : isSeen g scale now event with
      | false => exact ⟨hs, by rw [humps_cons_of_not_isSeen hseen, hhs]⟩
      | true =>
        obtain ⟨age, ha, ⟨e, he⟩ | ⟨hump, hh⟩⟩ := at?_of_isSeen hseen
        · obtain ⟨hump, hok⟩ := hevent age ha
          cases hok.symm.trans he
        · exact ⟨hump :: hs, by rw [humps_cons_of_at? ha hh, hroom, hhs]; rfl⟩

/-- What the humps add to a sample is what the events contribute to it, in the same order. -/
theorem filterMap_adds?_humps {events : List Json} {hs : List Hump}
    (h : humps g scale now events = .ok hs) (i : Nat) :
    hs.filterMap (·.adds? i) = events.filterMap (contribution? g scale now i) := by
  induction events generalizing hs with
  | nil =>
    cases h
    rfl
  | cons event events ih =>
    rcases humps_cons_eq_ok h with ⟨hseen, hrest⟩ | ⟨age, hump, rest, ha, hh, -, hrest, rfl⟩
    · rw [List.filterMap_cons_none (contribution?_of_not_isSeen hseen i), ih hrest]
    · have hc : contribution? g scale now i event = hump.adds? i := by
        rw [contribution?_of_age? ha, hh]
        rfl
      rw [List.filterMap_cons, List.filterMap_cons, hc, ih hrest]

theorem humps_filter_isSeen (events : List Json) :
    humps g scale now (events.filter (isSeen g scale now)) = humps g scale now events := by
  induction events with
  | nil => rfl
  | cons event events ih =>
    cases hseen : isSeen g scale now event with
    | false =>
      rw [List.filter_cons_of_neg (by rw [hseen]; decide), ih, humps_cons_of_not_isSeen hseen]
    | true =>
      rw [List.filter_cons_of_pos hseen]
      obtain ⟨age, ha, ⟨e, he⟩ | ⟨hump, hh⟩⟩ := at?_of_isSeen hseen
      · rw [humps_cons_of_at?_error ha he, humps_cons_of_at?_error ha he]
      · rw [humps_cons_of_at? ha hh, humps_cons_of_at? ha hh, ih]

theorem build_eq_ok_iff {activity : Json} {c : Curve} :
    build g now activity = .ok c ↔
      ∃ resolution events hs, g.resolution? = .ok resolution ∧
      activity.elements? = some events ∧
        humps g (1.0 / resolution) now events = .ok hs ∧ g.makeRoom = .ok () ∧
        c = ofSamples (draw g.count hs) := by
  have helements (events : List Json) :
      activity.elements?.elim (.error .notIterable) .ok =
          (.ok events : Except Fault (List Json)) ↔
        activity.elements? = some events := by
    cases activity.elements? with
    | none => exact ⟨nofun, nofun⟩
    | some es =>
      exact ⟨fun h => congrArg _ (Except.ok.inj h), fun h => congrArg _ (Option.some.inj h)⟩
  simp only [build, bind_eq_ok, mapError_eq_ok, pure_eq_ok, helements]
  constructor
  · rintro ⟨resolution, hr, events, he, hs, hh, _, hm, rfl⟩
    exact ⟨resolution, events, hs, hr, he, hh, hm, rfl⟩
  · rintro ⟨resolution, events, hs, hr, he, hh, hm, rfl⟩
    exact ⟨resolution, hr, events, he, hs, hh, (), hm, rfl⟩

theorem size_of_build {activity : Json} {c : Curve} (h : build g now activity = .ok c) :
    c.samples.size = g.count := by
  obtain ⟨resolution, events, hs, -, -, -, -, rfl⟩ := build_eq_ok_iff.1 h
  exact size_draw _ _

/-- Each sample of a curve is the sum of what the events contribute to it, added up from zero in
the order of the events; a curve is empty where all of its samples are zero; and events that
cannot be seen may stand anywhere among the others or be left out. -/
theorem build_gathers {activity : Json} {c : Curve} (h : build g now activity = .ok c) :
    ∃ resolution events, g.resolution? = .ok resolution ∧ activity.elements? = some events ∧
      c.samples.size = g.count ∧
      (∀ i < g.count, c.samples[i]? =
        some ((events.filterMap (contribution? g (1.0 / resolution) now i)).foldl (· + ·)
          0.0)) ∧
      (c.empty = true ↔ ∀ x ∈ c.samples, (x == 0.0) = true) ∧
      ∀ others : List Json,
        others.filter (isSeen g (1.0 / resolution) now) =
          events.filter (isSeen g (1.0 / resolution) now) →
        build g now (.arr others) = .ok c := by
  obtain ⟨resolution, events, hs, hr, he, hh, hm, rfl⟩ := build_eq_ok_iff.1 h
  refine ⟨resolution, events, hr, he, size_draw _ _, ?_, ?_, ?_⟩
  · intro i hi
    rw [← filterMap_adds?_humps hh i]
    exact getElem?_draw hi hs
  · simp only [ofSamples, Array.all_eq_true_iff_forall_mem]
  · intro others hothers
    refine build_eq_ok_iff.2 ⟨resolution, others, hs, hr, rfl, ?_, hm, rfl⟩
    rw [← humps_filter_isSeen, hothers, humps_filter_isSeen, hh]

end

/-- Of two events that can be seen, one in the future and a text, the first two give the
sample. -/
theorem build_gathers_standard :
    ∃ c, build .standard (.double 250.0)
        (.arr [.double 0.0, .double 300.0, .str "now", .double 200.0]) = .ok c ∧
      c.samples.size = 600 ∧
      c.samples[1]? =
        some (bell 2.5 (1.0 / Float.sqrt 12.5) 1.0 + bell 0.5 (1.0 / Float.sqrt 10.5) 1.0) ∧
      build .standard (.double 250.0) (.arr [.double 0.0, .double 200.0]) = .ok c := by
  have hok : (build .standard (.double 250.0)
      (.arr [.double 0.0, .double 300.0, .str "now", .double 200.0])).isOk = true := by
    decide +kernel
  cases hc : build .standard (.double 250.0)
      (.arr [.double 0.0, .double 300.0, .str "now", .double 200.0]) with
  | error e =>
    rw [hc] at hok
    cases hok
  | ok c =>
    obtain ⟨resolution, events, hr, he, hsize, hsamples, -, hothers⟩ := build_gathers hc
    cases hr
    cases he
    refine ⟨c, rfl, hsize, (hsamples 1 (by decide)).trans (by decide +kernel), hothers _ ?_⟩
    generalize hp : isSeen .standard (1.0 / Double.ofInt Geometry.standard.resolution)
      (.double 250.0) = p
    have hfuture : p (.double 300.0) = false := by
      rw [← hp]
      decide +kernel
    have htext : p (.str "now") = false := by
      rw [← hp]
      rfl
    simp only [List.filter_cons, hfuture, htext, Bool.false_eq_true, if_false]

end Curve

end RateCurve
