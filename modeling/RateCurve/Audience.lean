namespace RateCurve

/-- The viewers that are connected, each of them once. Any values that can be told apart may
stand for viewers. -/
structure Audience (ι : Type) where
  members : List ι := []
  nodup : members.Nodup := by simp

namespace Audience

variable {ι : Type}

def isEmpty (a : Audience ι) : Bool :=
  a.members.isEmpty

def size (a : Audience ι) : Nat :=
  a.members.length

/-- Adds a viewer. Nothing changes for one who is there already. -/
def insert [DecidableEq ι] (a : Audience ι) (id : ι) : Audience ι :=
  if h : id ∈ a.members then a
  else
    { members := a.members ++ [id]
      nodup := by
        simp only [List.nodup_append, List.mem_singleton]
        exact ⟨a.nodup, by simp, fun x hx y hy hxy => h (hy ▸ hxy ▸ hx)⟩ }

def filter (a : Audience ι) (p : ι → Bool) : Audience ι :=
  { members := a.members.filter p
    nodup := a.nodup.sublist List.filter_sublist }

def erase [DecidableEq ι] (a : Audience ι) (id : ι) : Audience ι :=
  a.filter (· != id)

theorem mem_insert [DecidableEq ι] {a : Audience ι} {id x : ι} :
    x ∈ (a.insert id).members ↔ x ∈ a.members ∨ x = id := by
  unfold insert
  split
  · rename_i h
    exact ⟨.inl, fun hx => hx.elim (fun hx => hx) (fun hx => hx ▸ h)⟩
  · simp only [List.mem_append, List.mem_singleton]

theorem mem_filter {a : Audience ι} {p : ι → Bool} {x : ι} :
    x ∈ (a.filter p).members ↔ x ∈ a.members ∧ p x = true :=
  List.mem_filter

theorem mem_erase [DecidableEq ι] {a : Audience ι} {id x : ι} :
    x ∈ (a.erase id).members ↔ x ∈ a.members ∧ x ≠ id := by
  simp only [erase, mem_filter, bne_iff_ne]

/-- The viewers that a text reaches over links of which some are down. -/
def reached (a : Audience ι) (up : ι → Bool) : List ι :=
  a.members.filter up

end Audience

end RateCurve
