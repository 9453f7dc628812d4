import RateCurve.Json.Reader
import RateCurve.Json.Writer
import RateCurve.Validation.Rules

namespace RateCurve

open Validation

/-- A report of one query, with the time at which it was made if it is not now. -/
structure Query where
  time : Option Float

namespace Query

def checkTime : Option Float → Except Cause (Option Float)
  | none => .ok none
  | some t =>
    if t.isFinite then .ok (some t)
      else .error (.refused "timestamp_ms must be a finite number")

def ofFields (fields : List (String × Json)) : Checked Query :=
  (defaulted fields "timestamp_ms" none fun v => optional number v >>= checkTime).map Query.mk

def ofJson : Json → Checked Query
  | .obj fields => ofFields fields
  | _ => .error [⟨[], .notARecord "QueryEvent"⟩]

/-- An integer of a text that is too large for a double is read as an infinity. -/
def saturate : Json → Json
  | .int n => if (Double.ofInt n).isFinite then .int n else .double (Double.ofInt n)
  | v => v

def ofText (s : String) : Checked Query :=
  match Json.read? .strict s.toList with
  | .error _ => .error [⟨[], .malformedText⟩]
  | .ok (.obj fields) => ofFields (fields.map fun (name, v) => (name, saturate v))
  | .ok _ => .error [⟨[], .notAnObject⟩]

end Query

structure Ack where
  status : String
  count : Option Int := none
  detail : Option String := none

namespace Ack

def ofFields (fields : List (String × Json)) : Checked Ack :=
  ((required fields "status" text).both
    ((defaulted fields "query_count" none (optional integer)).both
      (defaulted fields "detail" none (optional text)))).map
    fun (status, count, detail) => ⟨status, count, detail⟩

/-- What an answer does not say is left out. -/
def toJson (a : Ack) : Json :=
  .obj (("status", .str a.status) ::
    (a.count.toList.map fun n => ("query_count", .int n)) ++
    (a.detail.toList.map fun s => ("detail", .str s)))

def text (a : Ack) : String :=
  String.ofList (a.toJson.write .compact)

/-- The answer to a report that was recorded as the `n`-th one. -/
def accepted (n : Nat) : Ack :=
  { status := "accepted", count := some n }

def rejected : Ack :=
  { status := "error", detail := some "Query event validation failed" }

theorem text_accepted (n : Nat) :
    (accepted n).text =
      "\x7b\"status\":\"accepted\",\"query_count\":" ++ toString n ++ "\x7d" := by
  have hjson : (accepted n).toJson =
      .obj [("status", .str "accepted"), ("query_count", .int n)] := rfl
  have hwrite : (accepted n).toJson.write .compact =
      "\x7b\"status\":\"accepted\",\"query_count\":".toList ++ Decimal.digits n ++
        ['\x7d'] := by
    rw [hjson, Json.write]
    rfl
  rw [text, hwrite, String.ofList_append, String.ofList_append, String.ofList_toList]
  rfl

theorem text_rejected :
    rejected.text =
      "\x7b\"status\":\"error\",\"detail\":\"Query event validation failed\"\x7d" := by
  rfl

theorem text_accepted_inj {m n : Nat} : (accepted m).text = (accepted n).text ↔ m = n := by
  rw [text_accepted, text_accepted, String.append_left_inj, String.append_right_inj,
    Nat.toString_eq_ofList_toDigits, Nat.toString_eq_ofList_toDigits, String.ofList_inj]
  exact Decimal.digits_inj

theorem text_accepted_ne_text_rejected (n : Nat) : (accepted n).text ≠ rejected.text := by
  rw [text_accepted, text_rejected]
  intro h
  have htext := congrArg String.toList h
  simp at htext

end Ack

end RateCurve
