import RateCurve.Frame
import RateCurve.Proofs.Json.Reader
import RateCurve.Query
import RateCurve.Watch

namespace RateCurve
open Json

theorem forall₂_map_map {α β γ : Type} {R : β → γ → Prop} {f : α → β} {g : α → γ} {xs : List α}
    (h : ∀ x ∈ xs, R (f x) (g x)) : List.Forall₂ R (xs.map f) (xs.map g) := by
  rw [List.forall₂_map_left_iff, List.forall₂_map_right_iff, List.forall₂_same]
  exact h

namespace Frame

/-- What a viewer reads of the text of a frame. -/
def seen (f : Frame) : Watch.Value :=
  .obj [
    (TextType.ofString "now", .double f.now),
    (TextType.ofString "samples", .arr (f.samples.toList.map .double)),
    (TextType.ofString "empty", .bool f.empty),
    (TextType.ofString "peak", .double f.peak)]

theorem takes_samples (bounded : Bool) (depth : ℕ) (xs : List Float) :
    Takes (nested? bounded (depth + 1)) (write .spaced (.arr (xs.map .double) : Json))
      (.arr (xs.map .double) : Watch.Value) := by
  apply takes_arr
  apply forall₂_map_map
  intro x _
  exact takes_nested (takes_double bounded · x) depth

theorem takes_seen (bounded : Bool) (depth : ℕ) (f : Frame) :
    Takes (nested? bounded (depth + 2)) (f.toJson.write .spaced) f.seen := by
  apply takes_obj
  case hnames =>
    change ["now", "samples", "empty", "peak"].Nodup
    decide
  refine .cons ⟨rfl, ?now⟩
    (.cons ⟨rfl, ?samples⟩ (.cons ⟨rfl, ?empty⟩ (.cons ⟨rfl, ?peak⟩ .nil)))
  case now => exact takes_nested (takes_double bounded · f.now) _
  case samples => exact takes_samples bounded depth f.samples.toList
  case empty => exact takes_nested (takes_bool bounded · f.empty) _
  case peak => exact takes_nested (takes_double bounded · f.peak) _

theorem message?_text (f : Frame) : Watch.message? f.text = .ok f.seen := by
  have hread : Json.read? .lenient (f.toJson.write .spaced) = .ok f.seen :=
    (takes_seen Limits.lenient.boundsDoubles 976 f).read?
  rw [Watch.message?, text, String.toList_ofList, hread]
  rfl

/-- A viewer reads off the text of a frame what the frame holds. All numbers come back as
doubles, with all their bits. -/
theorem viewer_reads_back (f : Frame) : ∃ v, Watch.message? f.text = .ok v ∧
    Watch.field v "now" = .ok (.double f.now) ∧
    Watch.field v "samples" = .ok (.arr (f.samples.toList.map .double)) ∧
    Watch.field v "empty" = .ok (.bool f.empty) ∧
    Watch.field v "peak" = .ok (.double f.peak) :=
  ⟨f.seen, f.message?_text, rfl, rfl, rfl, rfl⟩

/-- A text is that of a frame, character for character, and a viewer reads the frame off it. -/
structure Written (f : Frame) (text : String) : Prop where
  toList_eq : text.toList =
    "\x7b\"now\": ".toList ++ Decimal.text f.now ++
      ", \"samples\": [".toList ++
        List.intercalate ", ".toList (f.samples.toList.map Decimal.text) ++
      "], \"empty\": ".toList ++ (if f.empty then "true" else "false").toList ++
      ", \"peak\": ".toList ++ Decimal.text f.peak ++ ['\x7d']
  read : Watch.message? text = .ok f.seen

theorem written_text (f : Frame) : f.Written f.text := by
  refine ⟨?_, f.message?_text⟩
  have hitems : writeItems .spaced (f.samples.toList.map .double : List Json) =
      List.intercalate ", ".toList (f.samples.toList.map Decimal.text) := by
    rw [writeItems_eq_intercalate, List.map_map]
    rfl
  rw [text, String.toList_ofList, ← hitems, toJson, write]
  simp only [writeFields, write, List.append_assoc, List.cons_append]
  rfl

end Frame

namespace Ack

def seen (a : Ack) : Watch.Value :=
  .obj ((TextType.ofString "status", .str (TextType.ofString a.status)) ::
    (a.count.toList.map fun n => (TextType.ofString "query_count", .int n)) ++
    (a.detail.toList.map fun s => (TextType.ofString "detail", .str (TextType.ofString s))))

theorem takes_seen (bounded : Bool) (depth : ℕ) {a : Ack}
    (hcount : ∀ n ∈ a.count, (Decimal.digits n.natAbs).length ≤ Decimal.maxDigits) :
    Takes (nested? bounded (depth + 1)) (a.toJson.write .compact) a.seen := by
  apply takes_obj
  case hnames =>
    obtain ⟨status, _ | n, _ | s⟩ := a <;> simp
  refine List.rel_append (.cons ⟨rfl, takes_nested (takes_quote bounded · a.status) _⟩ ?count)
    ?detail
  case count =>
    apply forall₂_map_map
    intro n hn
    exact ⟨rfl, takes_nested (takes_int bounded · (hcount n (Option.mem_toList.1 hn))) depth⟩
  case detail =>
    apply forall₂_map_map
    intro s _
    exact ⟨rfl, takes_nested (takes_quote bounded · s) depth⟩

/-- An answer can be read unless the number in it is too long. -/
theorem message?_text {a : Ack}
    (hcount : ∀ n ∈ a.count, (Decimal.digits n.natAbs).length ≤ Decimal.maxDigits) :
    Watch.message? a.text = .ok a.seen := by
  have hread : Json.read? .lenient (a.toJson.write .compact) = .ok a.seen :=
    (takes_seen Limits.lenient.boundsDoubles 977 hcount).read?
  rw [Watch.message?, text, String.toList_ofList, hread]
  rfl

end Ack

end RateCurve
