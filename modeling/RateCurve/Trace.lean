namespace RateCurve

/-- The outcomes of a sequence of inputs, each with the state after it. -/
def trace {σ ι ω : Type} (step : σ → ι → ω × σ) : σ → List ι → List (ω × σ)
  | _, [] => []
  | s, i :: is => step s i :: trace step (step s i).2 is

/-- The state after a sequence of inputs. -/
def runAll {σ ι ω : Type} (step : σ → ι → ω × σ) (s : σ) (is : List ι) : σ :=
  is.foldl (fun s i => (step s i).2) s

section

variable {σ ι ω : Type} (step : σ → ι → ω × σ)

@[simp]
theorem length_trace (s : σ) (is : List ι) : (trace step s is).length = is.length := by
  induction is generalizing s with
  | nil => rfl
  | cons i is ih => simp only [trace, List.length_cons, ih]

theorem runAll_append (s : σ) (is js : List ι) :
    runAll step s (is ++ js) = runAll step (runAll step s is) js :=
  List.foldl_append

theorem runAll_append_singleton (s : σ) (is : List ι) (i : ι) :
    runAll step s (is ++ [i]) = (step (runAll step s is) i).2 :=
  runAll_append step s is [i]

theorem trace_append (s : σ) (is js : List ι) :
    trace step s (is ++ js) = trace step s is ++ trace step (runAll step s is) js := by
  induction is generalizing s with
  | nil => rfl
  | cons i is ih => simp only [List.cons_append, trace, ih, runAll, List.foldl_cons]

/-- What every step keeps, a run keeps. -/
theorem runAll_induction {P : σ → Prop} (hstep : ∀ s i, P s → P (step s i).2) {s : σ} (hs : P s)
    (is : List ι) : P (runAll step s is) := by
  induction is generalizing s with
  | nil => exact hs
  | cons i is ih => exact ih (hstep s i hs)

end

end RateCurve
