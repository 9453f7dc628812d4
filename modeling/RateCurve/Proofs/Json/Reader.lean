import RateCurve.Json.Writer
import RateCurve.Proofs.Except
import RateCurve.Proofs.Json.Name
import RateCurve.Proofs.Json.Number

namespace RateCurve.Json

variable {τ : Type}

section Blank

theorem skipBlank_of_head {s : List Char} (h : ∀ c ∈ s.head?, isBlank c = false) :
    skipBlank s = s := by
  cases s with
  | nil => rfl
  | cons c s => exact List.dropWhile_cons_of_neg (by rw [h c rfl]; decide)

theorem skipBlank_cons {c : Char} (h : isBlank c = false) (s : List Char) :
    skipBlank (c :: s) = c :: s :=
  skipBlank_of_head (by rintro d ⟨⟩; exact h)

theorem skipBlank_append_blanks {gap : List Char} (h : ∀ c ∈ gap, isBlank c = true)
    (s : List Char) :
    skipBlank (gap ++ s) = skipBlank s :=
  List.dropWhile_append_of_pos h

end Blank

/-- Separators that have nothing after them but blanks. -/
class LawfulSpacing (sp : Spacing) : Prop where
  item_eq : ∃ gap, sp.item = ',' :: gap ∧ ∀ c ∈ gap, isBlank c = true
  field_eq : ∃ gap, sp.field = ':' :: gap ∧ ∀ c ∈ gap, isBlank c = true

instance : LawfulSpacing .spaced where
  item_eq := ⟨[' '], by decide, List.forall_mem_singleton.2 rfl⟩
  field_eq := ⟨[' '], by decide, List.forall_mem_singleton.2 rfl⟩

instance : LawfulSpacing .compact where
  item_eq := ⟨[], by decide, List.forall_mem_nil _⟩
  field_eq := ⟨[], by decide, List.forall_mem_nil _⟩

/-- A reader takes a text off whatever follows it, as a value. Blanks before the text do not
matter, and the text begins with something else. -/
structure Takes (read : Reader τ) (text : List Char) (v : Json τ) : Prop where
  head : ∃ c t, text = c :: t ∧ isBlank c = false ∧ c ≠ ']'
  read_eq : ∀ s rest, Delimits rest → skipBlank s = text ++ rest → read s = .ok (v, rest)

section Scalars

variable [TextType τ] (bounded : Bool) (inner : Reader τ)

theorem isBlank_of_isDigit {c : Char} (h : c.isDigit = true) : isBlank c = false := by
  rw [isBlank, Bool.or_eq_false_iff, Bool.or_eq_false_iff, Bool.or_eq_false_iff]
  refine ⟨⟨⟨?_, ?_⟩, ?_⟩, ?_⟩
  all_goals
    rw [beq_eq_false_iff_ne]
    rintro rfl
    revert h
    decide

theorem head_of_number? {s : List Char} {r : Number × List Char}
    (h : number? bounded s = .ok r) :
    ∃ c t, s = c :: t ∧ (c = '-' ∨ c = 'I' ∨ c.isDigit = true) := by
  unfold number? at h
  split at h
  · exact ⟨_, _, rfl, .inl rfl⟩
  · obtain ⟨c, t, rfl, hc⟩ := head_of_magnitude? bounded false h
    exact ⟨c, t, rfl, .inr hc⟩

theorem value?_of_head {s t : List Char} {c : Char} (hs : skipBlank s = c :: t)
    (hc : c = '-' ∨ c = 'I' ∨ c.isDigit = true) :
    value? bounded inner s = (number? bounded (c :: t)).map fun (n, s) => (ofNumber n, s) := by
  rw [value?, hs]
  split
  case h_9 => rfl
  all_goals
    rename_i heq
    cases heq <;> exact absurd hc (by decide)

theorem value?_of_number? {s rest : List Char} {n : Number}
    (h : number? bounded (skipBlank s) = .ok (n, rest)) :
    value? bounded inner s = .ok (ofNumber n, rest) := by
  obtain ⟨c, t, hs, hc⟩ := head_of_number? bounded h
  rw [hs] at h
  rw [value?_of_head bounded inner hs hc, h]
  rfl

theorem takes_of_number? {text : List Char} {n : Number}
    (h : ∀ rest, Delimits rest → number? bounded (text ++ rest) = .ok (n, rest)) :
    Takes (value? bounded inner) text (ofNumber n) := by
  obtain ⟨c, t, hs, hc⟩ := head_of_number? bounded (h [] nofun)
  rw [List.append_nil] at hs
  subst hs
  refine ⟨⟨c, t, rfl, ?_, ?_⟩, fun s rest hrest hs => ?_⟩
  · rcases hc with rfl | rfl | hc
    · rfl
    · rfl
    · exact isBlank_of_isDigit hc
  · rintro rfl
    exact absurd hc (by decide)
  · apply value?_of_number?
    rw [hs]
    exact h rest hrest

theorem takes_double (x : Float) :
    Takes (value? bounded inner) (Decimal.text x) (.double x) := by
  by_cases hx : Double.HasValue x
  · exact takes_of_number? bounded inner fun rest hrest => number?_text bounded hx hrest
  · rw [Double.eq_nan hx, show Decimal.text (0.0 / 0.0) = "NaN".toList by decide +kernel]
    refine ⟨⟨'N', _, rfl, rfl, by decide⟩, fun s rest _ hs => ?_⟩
    rw [value?, hs]
    rfl

theorem takes_bool (b : Bool) :
    Takes (value? bounded inner) (if b then "true" else "false").toList (.bool b) := by
  cases b with
  | true =>
    refine ⟨⟨'t', _, rfl, rfl, by decide⟩, fun s rest _ hs => ?_⟩
    rw [value?, hs]
    rfl
  | false =>
    refine ⟨⟨'f', _, rfl, rfl, by decide⟩, fun s rest _ hs => ?_⟩
    rw [value?, hs]
    rfl

theorem takes_int {n : ℤ} (hlength : (Decimal.digits n.natAbs).length ≤ Decimal.maxDigits) :
    Takes (value? bounded inner) (Decimal.intText n) (.int n) :=
  takes_of_number? bounded inner fun _ => number?_intText bounded hlength

theorem takes_quote [LawfulTextType τ] (text : String) :
    Takes (value? bounded inner) (quote text) (.str (TextType.ofString text)) := by
  refine ⟨⟨'"', _, rfl, rfl, by decide⟩, fun s rest _ hs => ?_⟩
  rw [quote_append] at hs
  rw [value?, hs]
  change (string? _).map _ = _
  rw [string?_escaped]
  rfl

end Scalars

section Parts

theorem Takes.skipBlank_append {read : Reader τ} {text : List Char} {v : Json τ}
    (h : Takes read text v) (rest : List Char) : skipBlank (text ++ rest) = text ++ rest := by
  obtain ⟨c, t, rfl, hc, -⟩ := h.head
  exact skipBlank_cons hc _

theorem delimits_cons {c : Char} (h : c.isDigit = false ∧ c ≠ '.' ∧ c ≠ 'e' ∧ c ≠ 'E')
    (s : List Char) : Delimits (c :: s) := by
  rintro d ⟨⟩
  exact h

end Parts

section Arrays

variable {sp : Spacing} {inner : Reader τ} {vs : List Json} {ws : List (Json τ)} {w : Json τ}
  {rest s s' : List Char} {fuel : ℕ}

theorem items?_last (h : inner s = .ok (w, ']' :: rest)) :
    items? inner (fuel + 1) s = .ok ([w], rest) := by
  rw [items?, h]
  rfl

theorem items?_more (h : inner s = .ok (w, ',' :: s'))
    (hs : items? inner fuel s' = .ok (ws, rest)) :
    items? inner (fuel + 1) s = .ok (w :: ws, rest) := by
  rw [items?, h]
  change (items? inner fuel s' >>= _) = _
  rw [hs]
  rfl

theorem writeItems_cons (sp : Spacing) (v : Json) (hne : vs ≠ []) :
    writeItems sp (v :: vs) = write sp v ++ sp.item ++ writeItems sp vs := by
  rw [writeItems]
  exact hne

theorem writeItems_head (sp : Spacing) (v : Json) (vs : List Json) :
    ∃ t, writeItems sp (v :: vs) = write sp v ++ t := by
  cases vs with
  | nil => exact ⟨[], by rw [writeItems, List.append_nil]⟩
  | cons v' vs =>
    refine ⟨sp.item ++ writeItems sp (v' :: vs), ?_⟩
    rw [writeItems_cons _ _ (List.cons_ne_nil _ _), List.append_assoc]

theorem writeItems_eq_intercalate (sp : Spacing) (vs : List Json) :
    writeItems sp vs = List.intercalate sp.item (vs.map (write sp)) := by
  induction vs with
  | nil => rw [writeItems]; rfl
  | cons v vs ih =>
    cases vs with
    | nil => rw [writeItems]; simp
    | cons v' vs =>
      rw [writeItems_cons _ _ (List.cons_ne_nil _ _), ih]
      simp

theorem skipBlank_writeItems {read : Reader τ} {v : Json} (h : Takes read (write sp v) w)
    (vs : List Json) (rest : List Char) :
    skipBlank (writeItems sp (v :: vs) ++ rest) = writeItems sp (v :: vs) ++ rest := by
  obtain ⟨t, ht⟩ := writeItems_head sp v vs
  rw [ht, List.append_assoc]
  exact h.skipBlank_append _

theorem items?_writeItems [LawfulSpacing sp]
    (h : List.Forall₂ (fun v w => Takes inner (write sp v) w) vs ws) (hne : vs ≠ [])
    (hfuel : vs.length ≤ fuel) (hs : skipBlank s = writeItems sp vs ++ ']' :: rest) :
    items? inner fuel s = .ok (ws, rest) := by
  induction h generalizing fuel s with
  | nil => exact absurd rfl hne
  | @cons v w vs ws hv hvs ih =>
    obtain ⟨fuel, rfl⟩ : ∃ n, fuel = n + 1 :=
      ⟨fuel - 1, by rw [List.length_cons] at hfuel; omega⟩
    cases hvs with
    | nil => exact items?_last (hv.read_eq s _ (delimits_cons (by decide) rest) hs)
    | @cons v' w' vs ws hv' hvs' =>
      obtain ⟨gap, hitem, hgap⟩ := ‹LawfulSpacing sp›.item_eq
      rw [writeItems_cons _ _ (List.cons_ne_nil _ _), hitem, List.append_assoc,
        List.append_assoc, List.cons_append] at hs
      have hread := hv.read_eq s _ (delimits_cons (c := ',') (by decide) _) hs
      apply items?_more hread
      apply ih (List.cons_ne_nil _ _) (Nat.le_of_succ_le_succ hfuel)
      exact (skipBlank_append_blanks hgap _).trans (skipBlank_writeItems hv' _ _)

theorem length_le_writeItems {read : Reader τ}
    (h : List.Forall₂ (fun v w => Takes read (write sp v) w) vs ws) :
    vs.length ≤ (writeItems sp vs).length := by
  induction h with
  | nil => exact Nat.zero_le _
  | @cons v w vs ws hv hvs ih =>
    obtain ⟨c, t, ht, -⟩ := hv.head
    cases vs with
    | nil => rw [writeItems, ht]; exact Nat.succ_le_succ (Nat.zero_le _)
    | cons v' vs =>
      rw [writeItems_cons _ _ (List.cons_ne_nil _ _), ht, List.length_append,
        List.length_append, List.length_cons]
      simp only [List.length_cons] at ih ⊢
      omega

theorem value?_nonempty_arr [TextType τ] (bounded : Bool) {c : Char} {t : List Char}
    (hs : skipBlank s = '[' :: s') (hs' : skipBlank s' = c :: t) (hc : c ≠ ']')
    (h : items? inner (c :: t).length (c :: t) = .ok (ws, rest)) :
    value? bounded inner s = .ok (.arr ws, rest) := by
  rw [value?, hs]
  split
  case h_3 heq =>
    cases heq
    rw [hs']
    split
    case h_1 heq =>
      cases heq
      exact absurd rfl hc
    case h_2 => rw [h]; rfl
  case h_9 hno _ _ _ _ _ => exact (hno _ rfl).elim
  all_goals
    rename_i heq
    cases heq

theorem takes_arr [TextType τ] [LawfulSpacing sp] (bounded : Bool)
    (h : List.Forall₂ (fun v w => Takes inner (write sp v) w) vs ws) :
    Takes (value? bounded inner) (write sp (.arr vs)) (.arr ws) := by
  refine ⟨⟨'[', _, rfl, rfl, by decide⟩, fun s rest hrest hs => ?_⟩
  have hs : skipBlank s = '[' :: (writeItems sp vs ++ ']' :: rest) := by
    rw [hs, write, List.append_assoc]
    rfl
  cases h with
  | nil => rw [value?, hs]; rfl
  | @cons v w vs ws hv hvs =>
    have hskip := skipBlank_writeItems hv vs (']' :: rest)
    have hfuel : (v :: vs).length ≤ (writeItems sp (v :: vs) ++ ']' :: rest).length := by
      rw [List.length_append]
      exact (length_le_writeItems (.cons hv hvs)).trans (Nat.le_add_right _ _)
    have hitems := items?_writeItems (.cons hv hvs) (List.cons_ne_nil v vs) hfuel hskip
    -- The bracket that closes an array does not begin its first item.
    obtain ⟨c, t, ht, -, hc⟩ := hv.head
    obtain ⟨t', ht'⟩ := writeItems_head sp v vs
    have hhead : writeItems sp (v :: vs) ++ ']' :: rest = c :: (t ++ (t' ++ ']' :: rest)) := by
      rw [ht', ht, List.append_assoc]
      rfl
    rw [hhead] at hskip hitems
    exact value?_nonempty_arr bounded (hhead ▸ hs) hskip hc hitems

end Arrays

section Objects

variable [TextType τ] {sp : Spacing} {inner : Reader τ} {fs : List (String × Json)}
  {gs : List (τ × Json τ)} {f : String × Json} {g : τ × Json τ} {name : τ} {w : Json τ}
  {rest s s₁ s₂ s' : List Char} {fuel : ℕ}

/-- A field that is written and what is read of it. -/
structure TakesField (sp : Spacing) (inner : Reader τ) (f : String × Json) (g : τ × Json τ) :
    Prop where
  name_eq : g.1 = TextType.ofString f.1
  takes : Takes inner (write sp f.2) g.2

theorem fields?_last (hs : skipBlank s = '"' :: s₁) (hname : string? s₁ = .ok (name, ':' :: s₂))
    (h : inner s₂ = .ok (w, '\x7d' :: rest)) :
    fields? inner (fuel + 1) s = .ok ([(name, w)], rest) := by
  rw [fields?, hs]
  change (string? s₁ >>= _) = _
  rw [hname]
  change (inner s₂ >>= _) = _
  rw [h]
  rfl

theorem fields?_more (hs : skipBlank s = '"' :: s₁) (hname : string? s₁ = .ok (name, ':' :: s₂))
    (h : inner s₂ = .ok (w, ',' :: s')) (hs' : fields? inner fuel s' = .ok (gs, rest)) :
    fields? inner (fuel + 1) s = .ok ((name, w) :: gs, rest) := by
  rw [fields?, hs]
  change (string? s₁ >>= _) = _
  rw [hname]
  change (inner s₂ >>= _) = _
  rw [h]
  change (fields? inner fuel s' >>= _) = _
  rw [hs']
  rfl

theorem fields?_flaw {flaw : Flaw} (hs : skipBlank s = '"' :: s₁)
    (hname : string? s₁ = .ok (name, ':' :: s₂)) (h : inner s₂ = .error flaw) :
    fields? inner (fuel + 1) s = .error flaw := by
  rw [fields?, hs]
  change (string? s₁ >>= _) = _
  rw [hname]
  change (inner s₂ >>= _) = _
  rw [h]
  rfl

theorem writeFields_cons (sp : Spacing) (f : String × Json) (hne : fs ≠ []) :
    writeFields sp (f :: fs) =
      quote f.1 ++ sp.field ++ write sp f.2 ++ sp.item ++ writeFields sp fs := by
  rw [writeFields]
  exact hne

theorem writeFields_head (sp : Spacing) (f : String × Json) (fs : List (String × Json)) :
    ∃ t, writeFields sp (f :: fs) = quote f.1 ++ (sp.field ++ (write sp f.2 ++ t)) := by
  cases fs with
  | nil => exact ⟨[], by rw [writeFields, List.append_nil, List.append_assoc]⟩
  | cons f' fs =>
    refine ⟨sp.item ++ writeFields sp (f' :: fs), ?_⟩
    rw [writeFields_cons _ _ (List.cons_ne_nil _ _)]
    simp only [List.append_assoc]

theorem skipBlank_writeFields (sp : Spacing) (f : String × Json) (fs : List (String × Json))
    (rest : List Char) :
    skipBlank (writeFields sp (f :: fs) ++ rest) = writeFields sp (f :: fs) ++ rest := by
  obtain ⟨t, ht⟩ := writeFields_head sp f fs
  rw [ht, List.append_assoc, quote_append]
  exact skipBlank_cons (by decide) _

theorem fields?_writeFields [LawfulTextType τ] [LawfulSpacing sp]
    (h : List.Forall₂ (TakesField sp inner) fs gs)
    (hne : fs ≠ []) (hfuel : fs.length ≤ fuel)
    (hs : skipBlank s = writeFields sp fs ++ '\x7d' :: rest) :
    fields? inner fuel s = .ok (gs, rest) := by
  induction h generalizing fuel s with
  | nil => exact absurd rfl hne
  | @cons f g fs gs hf hfs ih =>
    obtain ⟨fuel, rfl⟩ : ∃ n, fuel = n + 1 :=
      ⟨fuel - 1, by rw [List.length_cons] at hfuel; omega⟩
    obtain ⟨name, w⟩ := g
    obtain ⟨rfl, hw⟩ := hf
    obtain ⟨gap, hfield, hgap⟩ := ‹LawfulSpacing sp›.field_eq
    -- What follows the name is the value, after blanks.
    have hvalue (t : List Char) : skipBlank (gap ++ (write sp f.2 ++ t)) = write sp f.2 ++ t :=
      (skipBlank_append_blanks hgap _).trans (hw.skipBlank_append t)
    cases hfs with
    | nil =>
      rw [writeFields, hfield] at hs
      simp only [List.append_assoc, List.cons_append] at hs
      rw [quote_append] at hs
      exact fields?_last hs (string?_escaped f.1 _)
        (hw.read_eq _ _ (delimits_cons (by decide) rest) (hvalue _))
    | @cons f' g' fs gs hf' hfs' =>
      obtain ⟨gap', hitem, hgap'⟩ := ‹LawfulSpacing sp›.item_eq
      rw [writeFields_cons _ _ (List.cons_ne_nil _ _), hfield, hitem] at hs
      simp only [List.append_assoc, List.cons_append] at hs
      rw [quote_append] at hs
      apply fields?_more hs (string?_escaped f.1 _)
        (hw.read_eq _ _ (delimits_cons (c := ',') (by decide) _) (hvalue _))
      apply ih (List.cons_ne_nil _ _) (Nat.le_of_succ_le_succ hfuel)
      exact (skipBlank_append_blanks hgap' _).trans (skipBlank_writeFields sp f' fs _)

theorem length_le_writeFields (fs : List (String × Json)) :
    fs.length ≤ (writeFields sp fs).length := by
  induction fs with
  | nil => exact Nat.zero_le _
  | cons f fs ih =>
    cases fs with
    | nil => rw [writeFields]; exact Nat.succ_le_succ (Nat.zero_le _)
    | cons f' fs =>
      have hquote : 0 < (quote f.1).length := Nat.zero_lt_succ _
      rw [writeFields_cons _ _ (List.cons_ne_nil _ _)]
      simp only [List.length_append, List.length_cons] at ih ⊢
      omega

theorem setField_of_new {acc : List (τ × Json τ)} (h : ∀ f ∈ acc, (f.1 == name) = false) :
    setField name w acc = acc ++ [(name, w)] := by
  induction acc with
  | nil => rfl
  | cons f acc ih =>
    rw [setField, h f List.mem_cons_self, if_neg (by decide),
      ih fun f' hf' => h f' (List.mem_cons_of_mem f hf')]
    rfl

theorem foldl_setField {acc : List (τ × Json τ)}
    (h : (acc ++ gs).Pairwise fun f f' => (f.1 == f'.1) = false) :
    gs.foldl (fun acc (name, w) => setField name w acc) acc = acc ++ gs := by
  induction gs generalizing acc with
  | nil => exact (List.append_nil acc).symm
  | cons g gs ih =>
    obtain ⟨name, w⟩ := g
    have hnew : ∀ f ∈ acc, (f.1 == name) = false := fun f hf =>
      (List.pairwise_append.1 h).2.2 f hf _ List.mem_cons_self
    change gs.foldl _ (setField name w acc) = _
    rw [setField_of_new hnew, ih (by rwa [List.append_assoc]), List.append_assoc]
    rfl

/-- Fields whose names are all different make up an object as they are. -/
theorem ofFields_of_pairwise (h : gs.Pairwise fun f f' => (f.1 == f'.1) = false) :
    ofFields gs = .obj gs :=
  congrArg obj (@foldl_setField τ _ gs [] h)

theorem pairwise_of_takesField [LawfulTextType τ] (h : List.Forall₂ (TakesField sp inner) fs gs)
    (hnames : (fs.map Prod.fst).Nodup) : gs.Pairwise fun f f' => (f.1 == f'.1) = false := by
  have hmap : gs.map Prod.fst = fs.map fun f => TextType.ofString f.1 := by
    induction h with
    | nil => rfl
    | cons hf _ ih =>
      rw [List.map_cons, List.map_cons, hf.name_eq, ih (List.nodup_cons.1 hnames).2]
  rw [← List.pairwise_map (f := Prod.fst) (R := fun a b => (a == b) = false), hmap,
    List.pairwise_map]
  apply (List.pairwise_map.1 hnames).imp
  intro f f' hne
  rw [LawfulTextType.beq_ofString, beq_eq_false_iff_ne]
  exact hne

theorem value?_nonempty_obj (bounded : Bool) {c : Char} {t : List Char}
    (hs : skipBlank s = '\x7b' :: s') (hs' : skipBlank s' = c :: t) (hc : c ≠ '\x7d') :
    value? bounded inner s =
      (fields? inner (c :: t).length (c :: t)).map fun (fields, s) => (ofFields fields, s) := by
  rw [value?, hs]
  split
  case h_4 heq =>
    cases heq
    rw [hs']
    split
    case h_1 heq =>
      cases heq
      exact absurd rfl hc
    case h_2 => rfl
  case h_9 hno _ _ _ _ => exact (hno _ rfl).elim
  all_goals
    rename_i heq
    cases heq

theorem takes_obj [LawfulTextType τ] [LawfulSpacing sp] (bounded : Bool)
    (h : List.Forall₂ (TakesField sp inner) fs gs) (hnames : (fs.map Prod.fst).Nodup) :
    Takes (value? bounded inner) (write sp (.obj fs)) (.obj gs) := by
  refine ⟨⟨'\x7b', _, rfl, rfl, by decide⟩, fun s rest hrest hs => ?_⟩
  have hs : skipBlank s = '\x7b' :: (writeFields sp fs ++ '\x7d' :: rest) := by
    rw [hs, write, List.append_assoc]
    rfl
  have hobj := ofFields_of_pairwise (pairwise_of_takesField h hnames)
  cases h with
  | nil => rw [value?, hs]; rfl
  | @cons f g fs gs hf hfs =>
    have hskip := skipBlank_writeFields sp f fs ('\x7d' :: rest)
    have hfuel : (f :: fs).length ≤ (writeFields sp (f :: fs) ++ '\x7d' :: rest).length := by
      rw [List.length_append]
      exact (length_le_writeFields (f :: fs)).trans (Nat.le_add_right _ _)
    have hfields := fields?_writeFields (.cons hf hfs) (List.cons_ne_nil f fs) hfuel hskip
    obtain ⟨t, ht⟩ := writeFields_head sp f fs
    obtain ⟨t', hhead⟩ : ∃ t', writeFields sp (f :: fs) ++ '\x7d' :: rest = '"' :: t' :=
      ⟨_, by rw [ht, List.append_assoc, quote_append]⟩
    rw [hhead] at hskip hfields
    rw [← hobj, value?_nonempty_obj bounded (hhead ▸ hs) hskip (by decide), hfields]
    rfl

end Objects

section Nested

variable [TextType τ] {text : List Char} {v : Json τ}

theorem takes_nested {bounded : Bool} (h : ∀ inner, Takes (value? bounded inner) text v)
    (depth : ℕ) : Takes (nested? bounded depth) text v := by
  cases depth with
  | zero => exact h _
  | succ depth => exact h _

theorem Takes.read? {limits : Limits}
    (h : Takes (nested? limits.boundsDoubles limits.depth) text v) :
    Json.read? limits text = .ok v := by
  have hskip := h.skipBlank_append []
  rw [List.append_nil] at hskip
  rw [Json.read?, h.read_eq text [] nofun (by rw [hskip, List.append_nil])]
  rfl

end Nested

section Refusal

variable {sp : Spacing} {inner : Reader τ} {text : List Char} {v : Json} {name : String}

/-- A reader fails at a text, whatever follows it. -/
structure Refuses (read : Reader τ) (text : List Char) : Prop where
  head : ∃ c t, text = c :: t ∧ isBlank c = false
  read_eq : ∀ s rest, Delimits rest → skipBlank s = text ++ rest → ∃ flaw, read s = .error flaw

theorem Refuses.skipBlank_append (h : Refuses inner text) (rest : List Char) :
    skipBlank (text ++ rest) = text ++ rest := by
  obtain ⟨c, t, rfl, hc⟩ := h.head
  exact skipBlank_cons hc _

variable [TextType τ]

/-- An integer is refused for the number of its digits alone. -/
theorem refuses_int (bounded : Bool) (inner : Reader τ) {n : ℤ}
    (hlength : Decimal.maxDigits < (Decimal.digits n.natAbs).length) :
    Refuses (value? bounded inner) (Decimal.intText n) := by
  obtain ⟨c, t, hs, hc⟩ : ∃ c t, Decimal.intText n = c :: t ∧ (c = '-' ∨ c.isDigit = true) := by
    rw [intText_eq]
    by_cases hn : n < 0
    · exact ⟨_, _, by rw [decide_eq_true hn]; rfl, .inl rfl⟩
    · obtain ⟨c, t, hd⟩ := List.exists_cons_of_ne_nil (Decimal.digits_ne_nil n.natAbs)
      refine ⟨c, t, by rw [decide_eq_false hn, hd]; rfl, .inr ?_⟩
      exact Decimal.isDigit_of_mem_digits (hd ▸ List.mem_cons_self)
  have hc' : c = '-' ∨ c = 'I' ∨ c.isDigit = true := hc.imp_right .inr
  refine ⟨⟨c, t, hs, ?_⟩, fun s rest hrest hskip => ?_⟩
  · rcases hc with rfl | hc
    · rfl
    · exact isBlank_of_isDigit hc
  · have herror := number?_intText_of_lt bounded hlength hrest
    rw [hs, List.cons_append] at herror hskip
    exact ⟨.tooManyDigits, by rw [value?_of_head bounded inner hskip hc', herror]; rfl⟩

theorem fields?_refused [LawfulTextType τ] [LawfulSpacing sp]
    (h : Refuses inner (write sp v)) (fuel : ℕ) {s rest : List Char}
    (hs : skipBlank s = writeFields sp [(name, v)] ++ '\x7d' :: rest) :
    ∃ flaw, fields? inner (fuel + 1) s = .error flaw := by
  obtain ⟨gap, hfield, hgap⟩ := ‹LawfulSpacing sp›.field_eq
  rw [writeFields, hfield] at hs
  simp only [List.append_assoc, List.cons_append] at hs
  rw [quote_append] at hs
  have hskip :
      skipBlank (gap ++ (write sp v ++ '\x7d' :: rest)) = write sp v ++ '\x7d' :: rest :=
    (skipBlank_append_blanks hgap _).trans (h.skipBlank_append _)
  obtain ⟨flaw, herror⟩ := h.read_eq _ _ (delimits_cons (c := '\x7d') (by decide) rest) hskip
  exact ⟨flaw, fields?_flaw hs (string?_escaped name _) herror⟩

theorem refuses_obj [LawfulTextType τ] [LawfulSpacing sp] (bounded : Bool)
    (h : Refuses inner (write sp v)) :
    Refuses (value? bounded inner) (write sp (.obj [(name, v)])) := by
  refine ⟨⟨'\x7b', _, rfl, rfl⟩, fun s rest hrest hs => ?_⟩
  have hs : skipBlank s = '\x7b' :: (writeFields sp [(name, v)] ++ '\x7d' :: rest) := by
    rw [hs, write, List.append_assoc]
    rfl
  have hskip := skipBlank_writeFields sp (name, v) [] ('\x7d' :: rest)
  obtain ⟨t, ht⟩ := writeFields_head sp (name, v) []
  obtain ⟨t', hhead⟩ : ∃ t', writeFields sp [(name, v)] ++ '\x7d' :: rest = '"' :: t' :=
    ⟨_, by rw [ht, List.append_assoc, quote_append]⟩
  obtain ⟨flaw, herror⟩ := fields?_refused h t'.length hskip
  rw [hhead] at hskip herror
  refine ⟨flaw, ?_⟩
  rw [value?_nonempty_obj bounded (hhead ▸ hs) hskip (by decide), List.length_cons, herror]
  rfl

theorem refuses_nested {bounded : Bool}
    (h : ∀ inner : Reader τ, Refuses (value? bounded inner) text)
    (depth : ℕ) : Refuses (nested? bounded depth : Reader τ) text := by
  cases depth with
  | zero => exact h _
  | succ depth => exact h _

theorem Refuses.read? {limits : Limits}
    (h : Refuses (nested? limits.boundsDoubles limits.depth : Reader τ) text) :
    ∃ flaw, (Json.read? limits text : Except Flaw (Json τ)) = .error flaw := by
  have hskip := h.skipBlank_append []
  rw [List.append_nil] at hskip
  obtain ⟨flaw, herror⟩ := h.read_eq text [] nofun (by rw [hskip, List.append_nil])
  exact ⟨flaw, by rw [Json.read?, herror]; rfl⟩

end Refusal

end RateCurve.Json
