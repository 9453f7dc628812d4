import RateCurve.Proofs.History
import RateCurve.Proofs.Service.Availability

namespace RateCurve

def Role.answers : Role → String → Bool
  | .reporter, _ => true
  | .viewer, text => Service.isPing text

def Service.Command.target? : Service.Command → Option String
  | .received id _ | .closed id | .severed id => some id
  | _ => none

/-- What a command makes of the connection that it is about. -/
def Connection.after (c : Connection) : Service.Command → Connection
  | .received _ text => { c with served := c.served && (c.up || !c.role.answers text) }
  | .closed _ => { c with served := false }
  | .severed _ => { c with up := false }
  | _ => c

namespace Service

/-- A command with its moment and with the state that it meets. -/
abbrev Event := Service × Float × Command

def Opens (key : Connection.Key) (role : Role) : Event → Prop
  | (s, _, command) => command = .opened key.id role ∧ s.connections.length = key.serial

def Closes (key : Connection.Key) : Event → Prop
  | (s, _, command) => command = .closed key.id ∧ s.isNewest key = true

def Severs (key : Connection.Key) : Event → Prop
  | (s, _, command) => command = .severed key.id ∧ s.isNewest key = true

/-- A text comes on the connection with a key. -/
def Says (key : Connection.Key) (text : String) : Event → Prop
  | (s, _, command) => command = .received key.id text ∧ s.isNewest key = true

/-- An answer that is due on the connection with a key does not get through. -/
def Unanswered (role : Role) (key : Connection.Key) : Event → Prop
  | (s, m) => (∃ text, Says key text (s, m) ∧ role.answers text = true) ∧ s.isUp key = false

def holder? (s : Service) (key : Connection.Key) : Option Connection :=
  s.connections.find? (·.key == key)

/-- A connection with a key and a role is served. -/
def Serves (s : Service) (key : Connection.Key) (role : Role) : Prop :=
  ∃ c, s.holder? key = some c ∧ c.role = role ∧ c.served = true

/-- What one command may make of a connection. -/
structure Becomes (e : Event) (c d : Connection) : Prop where
  role : d.role = c.role
  served : d.served = true ↔ c.served = true ∧ ¬(Closes c.key e ∨ Unanswered c.role c.key e)
  up : d.up = true ↔ c.up = true ∧ ¬Severs c.key e

section

variable {s : Service} {id : String} {c : Connection} {key : Connection.Key}

theorem key_of_holder? (h : s.holder? key = some c) : c.key = key := by
  simpa only [beq_iff_eq] using List.find?_some h

theorem id_of_connection? (h : s.connection? id = some c) : c.key.id = id := by
  simpa only [beq_iff_eq] using List.find?_some h

theorem holder?_of_connection? (h : s.connection? id = some c) : s.holder? c.key = some c := by
  -- What stands before it has another name, hence another key.
  obtain ⟨-, before, after, hsplit, hbefore⟩ := List.find?_eq_some_iff_append.1 h
  refine List.find?_eq_some_iff_append.2 ⟨beq_self_eq_true c.key, before, after, hsplit, ?_⟩
  intro d hd
  have hid := hbefore d hd
  rw [← id_of_connection? h, Bool.not_eq_true', beq_eq_false_iff_ne] at hid
  rw [Bool.not_eq_true', beq_eq_false_iff_ne]
  intro hkey
  exact hid (congrArg Connection.Key.id hkey)

theorem isNewest_iff (h : s.connection? key.id = some c) :
    s.isNewest key = true ↔ c.key = key := by
  rw [isNewest, h, Option.any_some, beq_iff_eq]

theorem not_isNewest (h : s.connection? key.id = none) : ¬s.isNewest key = true := by
  rw [isNewest, h]
  exact Bool.false_ne_true

theorem holder?_accept (s : Service) (id : String) (role : Role) (key : Connection.Key) :
    (s.accept id role).holder? key =
      if ⟨id, s.connections.length⟩ = key then some { key, role } else s.holder? key := by
  have hc : (s.accept id role).connections =
      { key := ⟨id, s.connections.length⟩, role } :: s.connections := by
    cases role <;> rfl
  rw [holder?, hc]
  split_ifs with h
  · rw [h]
    exact List.find?_cons_of_pos (beq_self_eq_true key)
  · exact List.find?_cons_of_neg (by rwa [beq_iff_eq])

theorem holder?_setConnection (s : Service) (d : Connection) (key : Connection.Key) :
    (s.setConnection d).holder? key =
      if d.key = key then (s.holder? key).map fun _ => d else s.holder? key := by
  have hkey : ((·.key == key) ∘ fun e => if e.key = d.key then d else e) =
      fun e : Connection => e.key == key := by
    funext e
    by_cases he : e.key = d.key
    · rw [Function.comp_apply, if_pos he, he]
    · simp only [Function.comp_apply, if_neg he]
  rw [holder?, setConnection, List.find?_map, hkey]
  change (s.holder? key).map _ = _
  cases h : s.holder? key with
  | none => exact (ite_self _).symm
  | some e =>
    rw [Option.map_some, Option.map_some, key_of_holder? h]
    by_cases hk : d.key = key
    · rw [if_pos hk, if_pos hk.symm]
    · rw [if_neg hk, if_neg (Ne.symm hk)]

theorem step_of_connection?_eq_none [Machine] (h : s.connection? id = none) {command : Command}
    (hid : command.target? = some id) (now : Float) :
    s.step (now, command) = ((.done, {}), s) := by
  cases command with
  | received name text | closed name | severed name =>
    cases hid
    simp only [step, h, Option.elim]
  | _ => cases hid

theorem connections_answer (s : Service) (c : Connection) (text : String) :
    (s.answer c text).2.connections =
      if c.up = true then s.connections else (s.abandon c).connections := by
  unfold answer
  split_ifs <;> rfl

theorem connections_receive (s : Service) (now : Float) (c : Connection) (text : String) :
    (s.receive now c text).2.connections =
      if (c.up || !c.role.answers text) = true then s.connections
      else (s.abandon c).connections := by
  unfold receive
  cases hrole : c.role with
  | viewer =>
    cases hp : isPing text with
    | true =>
      simp only [Role.answers, hp, if_true, connections_answer, Bool.not_true, Bool.or_false]
    | false =>
      simp only [Role.answers, hp, Bool.false_eq_true, if_false, Bool.not_false,
        Bool.or_true, if_true]
  | reporter =>
    simp only [Role.answers, Bool.not_true, Bool.or_false]
    cases Query.ofText text with
    | error issues => exact s.connections_answer c _
    | ok query => exact connections_answer _ c _

theorem connections_dismiss (s : Service) (c : Connection) :
    (s.dismiss c).connections = (s.abandon c).connections := by
  unfold dismiss
  cases c.role <;> rfl

/-- A command for one connection puts in its place what it makes of it, or changes nothing. -/
theorem connections_of_connection? [Machine] (h : s.connection? id = some c) {command : Command}
    (hid : command.target? = some id) (now : Float) :
    (s.step (now, command)).2.connections = s.connections ∧ c.after command = c ∨
      (s.step (now, command)).2.connections =
        (s.setConnection (c.after command)).connections := by
  cases command with
  | received name text =>
    cases hid
    simp only [step, h, Connection.after]
    by_cases hserved : c.served = true
    · rw [if_pos hserved, connections_receive, hserved, Bool.true_and]
      by_cases hup : (c.up || !c.role.answers text) = true
      · rw [if_pos hup, hup, ← hserved]
        exact .inl ⟨rfl, rfl⟩
      · rw [if_neg hup, Bool.of_not_eq_true hup]
        exact .inr rfl
    · rw [if_neg hserved, Bool.of_not_eq_true hserved, Bool.false_and,
        ← Bool.of_not_eq_true hserved]
      exact .inl ⟨rfl, rfl⟩
  | closed name =>
    cases hid
    simp only [step, h, Option.elim, Connection.after]
    by_cases hserved : c.served = true
    · rw [if_pos hserved, connections_dismiss]
      exact .inr rfl
    · rw [if_neg hserved, ← Bool.of_not_eq_true hserved]
      exact .inl ⟨rfl, rfl⟩
  | severed name =>
    cases hid
    simp only [step, h, Option.elim]
    exact .inr rfl
  | _ => cases hid

theorem key_after (c : Connection) (command : Command) : (c.after command).key = c.key := by
  cases command <;> rfl

theorem holder?_of_connection?_eq_some [Machine] (h : s.connection? id = some c)
    {command : Command} (hid : command.target? = some id) (now : Float) (key : Connection.Key) :
    (s.step (now, command)).2.holder? key =
      if c.key = key then some (c.after command) else s.holder? key := by
  have hholder := holder?_of_connection? h
  rcases connections_of_connection? h hid now with ⟨hstep, hafter⟩ | hstep
  · rw [holder?, hstep, hafter]
    split_ifs with hk
    · rw [← hk]
      exact hholder
    · rfl
  · rw [holder?, hstep]
    refine (holder?_setConnection s (c.after command) key).trans ?_
    rw [key_after]
    split_ifs with hk
    · rw [← hk, hholder]
      rfl
    · rfl

theorem isUp_of_holder? (h : s.holder? key = some c) : s.isUp key = c.up :=
  congrArg (Option.elim · false Connection.up) h

theorem becomes_after (h : s.holder? key = some c) (hn : s.isNewest key = true)
    {command : Command} (hid : command.target? = some key.id) (now : Float) :
    Becomes (s, now, command) c (c.after command) := by
  have hup : s.isUp key = c.up := isUp_of_holder? h
  obtain rfl := key_of_holder? h
  cases command with
  | received name text =>
    cases hid
    refine ⟨rfl, ?_, (and_iff_left ?_).symm⟩
    · cases ha : c.role.answers text <;>
        simp [Connection.after, Closes, Unanswered, Says, hn, hup, ha]
    · rintro ⟨h, -⟩
      cases h
  | closed name =>
    cases hid
    refine ⟨rfl, ?_, (and_iff_left ?_).symm⟩
    · simp [Connection.after, Closes, Unanswered, Says, hn]
    · rintro ⟨h, -⟩
      cases h
  | severed name =>
    cases hid
    refine ⟨rfl, (and_iff_left ?_).symm, ?_⟩
    · rintro (⟨h, -⟩ | ⟨⟨text, ⟨h, -⟩, -⟩, -⟩) <;> cases h
    · simp [Connection.after, Severs, hn]
  | _ => cases hid

theorem becomes_self {m : Float × Command}
    (h : ¬(m.2.target? = some c.key.id ∧ s.isNewest c.key = true)) : Becomes (s, m) c c := by
  obtain ⟨now, command⟩ := m
  refine ⟨rfl, (and_iff_left ?_).symm, (and_iff_left ?_).symm⟩
  · rintro (⟨rfl, hn⟩ | ⟨⟨text, ⟨rfl, hn⟩, -⟩, -⟩)
    · exact h ⟨rfl, hn⟩
    · exact h ⟨rfl, hn⟩
  · rintro ⟨rfl, hn⟩
    exact h ⟨rfl, hn⟩

end

theorem holder?_cases_of_eq [Machine] {s : Service} {m : Float × Command} {key : Connection.Key}
    (h : ¬(m.2.target? = some key.id ∧ s.isNewest key = true))
    (heq : (s.step m).2.holder? key = s.holder? key) :
    s.holder? key = none ∧ (s.step m).2.holder? key = none ∨
      ∃ c d, s.holder? key = some c ∧ (s.step m).2.holder? key = some d ∧
      Becomes (s, m) c d := by
  rw [heq]
  cases hc : s.holder? key with
  | none => exact .inl ⟨rfl, rfl⟩
  | some c =>
    obtain rfl := key_of_holder? hc
    exact .inr ⟨c, c, rfl, rfl, becomes_self h⟩

/-- A command opens the connection with a key or makes of it what it becomes, if there is
one. -/
theorem holder?_step [Machine] (s : Service) (m : Float × Command) (key : Connection.Key) :
    (∃ role, Opens key role (s, m) ∧ (s.step m).2.holder? key = some { key, role }) ∨
      (∀ role, ¬Opens key role (s, m)) ∧
        (s.holder? key = none ∧ (s.step m).2.holder? key = none ∨
          ∃ c d, s.holder? key = some c ∧ (s.step m).2.holder? key = some d ∧
            Becomes (s, m) c d) := by
  obtain ⟨now, command⟩ := m
  cases htarget : command.target? with
  | none =>
    -- A command for no connection opens one or leaves all as they are.
    have hidle : ¬(command.target? = some key.id ∧ s.isNewest key = true) := by
      rw [htarget]
      rintro ⟨h, -⟩
      cases h
    cases command with
    | opened id role =>
      have hholder := s.holder?_accept id role key
      by_cases hk : ⟨id, s.connections.length⟩ = key
      · rw [if_pos hk] at hholder
        subst hk
        exact .inl ⟨role, ⟨rfl, rfl⟩, hholder⟩
      · rw [if_neg hk] at hholder
        refine .inr ⟨?_, holder?_cases_of_eq hidle hholder⟩
        rintro r ⟨hr, hserial⟩
        cases hr
        exact hk (congrArg (Connection.Key.mk key.id) hserial)
    | received id text | closed id | severed id => cases htarget
    | _ =>
      refine .inr ⟨?_, holder?_cases_of_eq hidle rfl⟩
      rintro role ⟨h, -⟩
      cases h
  | some id =>
    have hopens (role : Role) : ¬Opens key role (s, now, command) := by
      rintro ⟨rfl, -⟩
      cases htarget
    refine .inr ⟨hopens, ?_⟩
    cases hc : s.connection? id with
    | none =>
      refine holder?_cases_of_eq ?_ (by rw [step_of_connection?_eq_none hc htarget])
      rintro ⟨hid, hn⟩
      cases htarget.symm.trans hid
      exact not_isNewest hc hn
    | some c =>
      have hholder := holder?_of_connection?_eq_some hc htarget now key
      by_cases hk : c.key = key
      · subst hk
        obtain rfl := id_of_connection? hc
        have hnewest : s.isNewest c.key = true := (isNewest_iff hc).2 rfl
        have hbefore := holder?_of_connection? hc
        exact .inr ⟨c, _, hbefore, hholder.trans (if_pos rfl),
          becomes_after hbefore hnewest htarget now⟩
      · refine holder?_cases_of_eq ?_ (hholder.trans (if_neg hk))
        rintro ⟨hid, hn⟩
        cases htarget.symm.trans hid
        exact hk ((isNewest_iff hc).1 hn)

/-- Every connection has a number of its own below that of the next one. -/
def Numbered (s : Service) : Prop :=
  ∀ key c, s.holder? key = some c → key.serial < s.connections.length

theorem length_le_step [Machine] (s : Service) (m : Float × Command) :
    s.connections.length ≤ (s.step m).2.connections.length := by
  obtain ⟨now, command⟩ := m
  cases htarget : command.target? with
  | none =>
    cases command with
    | opened id role => cases role <;> exact Nat.le_succ _
    | received id text | closed id | severed id => cases htarget
    | _ => exact Nat.le_refl _
  | some id =>
    cases hc : s.connection? id with
    | none => rw [step_of_connection?_eq_none hc htarget]
    | some c =>
      rcases connections_of_connection? hc htarget now with ⟨hstep, -⟩ | hstep
      · rw [hstep]
      · rw [hstep, setConnection, List.length_map]

section

variable {s : Service} {m : Float × Command} {key : Connection.Key} {role : Role}

theorem Numbered.not_opens (h : s.Numbered) {c : Connection} (hc : s.holder? key = some c) :
    ¬Opens key role (s, m) :=
  fun hopens => Nat.lt_irrefl _ (hopens.2 ▸ h key c hc)

theorem Opens.role_eq {other : Role} (h : Opens key role (s, m)) (ho : Opens key other (s, m)) :
    role = other := by
  cases h.1.symm.trans ho.1
  rfl

variable [Machine]

theorem length_of_opens (h : Opens key role (s, m)) :
    (s.step m).2.connections.length = s.connections.length + 1 := by
  obtain ⟨now, command⟩ := m
  obtain ⟨rfl, -⟩ := h
  cases role <;> rfl

theorem Numbered.step (h : s.Numbered) (m : Float × Command) : (s.step m).2.Numbered := by
  intro key d hd
  rcases s.holder?_step m key with ⟨role, hopens, -⟩ | ⟨-, ⟨-, hnone⟩ | ⟨c, -, hc, -, -⟩⟩
  · rw [length_of_opens hopens, ← hopens.2]
    exact Nat.lt_succ_self _
  · cases hnone.symm.trans hd
  · exact (h key c hc).trans_le (length_le_step s m)

/-- A connection is served once it is opened, until its other end closes it or an answer does
not get through. -/
theorem serves_step (h : s.Numbered) :
    (s.step m).2.Serves key role ↔ Opens key role (s, m) ∨
      s.Serves key role ∧ ¬(Closes key (s, m) ∨ Unanswered role key (s, m)) := by
  rcases s.holder?_step m key with
    ⟨opened, hopens, hd⟩ | ⟨hopens, ⟨hc, hd⟩ | ⟨c, d, hc, hd, hbecomes⟩⟩
  · -- No key is given twice, so that nothing was served under this one.
    have hserves : ¬s.Serves key role := by
      rintro ⟨c, hc, -⟩
      exact h.not_opens hc hopens
    simp only [Serves, hd, Option.some.injEq, exists_eq_left', and_true]
    rw [or_iff_left fun hs => hserves hs.1]
    constructor
    · rintro rfl
      exact hopens
    · exact hopens.role_eq
  · simp only [Serves, hc, hd, hopens role, reduceCtorEq, false_and, exists_false, or_self]
  · obtain rfl := key_of_holder? hc
    simp only [Serves, hc, hd, hopens role, Option.some.injEq, exists_eq_left', hbecomes.role,
      hbecomes.served, and_assoc, false_or]
    refine and_congr_right ?_
    rintro rfl
    rfl

theorem isUp_step :
    (s.step m).2.isUp key = true ↔ (∃ role, Opens key role (s, m)) ∨
      s.isUp key = true ∧ ¬Severs key (s, m) := by
  rcases s.holder?_step m key with
    ⟨opened, hopens, hd⟩ | ⟨hopens, ⟨hc, hd⟩ | ⟨c, d, hc, hd, hbecomes⟩⟩
  · exact iff_of_true (isUp_of_holder? hd) (.inl ⟨opened, hopens⟩)
  · rw [or_iff_right (not_exists.2 hopens)]
    have hup (t : Service) (ht : t.holder? key = none) : ¬t.isUp key = true := by
      rw [show t.isUp key = false from congrArg (Option.elim · false Connection.up) ht]
      exact Bool.false_ne_true
    exact iff_of_false (hup _ hd) fun hs => hup s hc hs.1
  · obtain rfl := key_of_holder? hc
    rw [or_iff_right (not_exists.2 hopens), isUp_of_holder? hd, isUp_of_holder? hc]
    exact hbecomes.up

end

end Service

end RateCurve
