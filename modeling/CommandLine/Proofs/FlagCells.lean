import Mathlib
import CommandLine.Proofs.Client

/-!
# What the cells of flags hold

Sessions share the cells of their program, and a table that is added sets the cells of all of
its flags to zero, those among them that other tables have written. So a cell holds what the
last match stored in it since the last table with a flag on the cell came, zero if there was
no match since, and its first content as long as no such table has come
(`CommandLine.Client.Accounts`). This holds after every history of a program, and at each of
its moments a session that parses does one thing to the program if it deals with the match
itself, and nothing otherwise (`CommandLine.Client.accounts_for_cells`).
-/

namespace CommandLine

/-- The option has a flag on the cell. -/
def OptionDecl.Flags (decl : OptionDecl) (cell : CellId) : Prop :=
  decl.flag?.map Flag.cell = some cell

instance (decl : OptionDecl) (cell : CellId) : Decidable (decl.Flags cell) :=
  inferInstanceAs (Decidable (decl.flag?.map Flag.cell = some cell))

/-- An option of the table has a flag on the cell. -/
def OptionTable.Flags (table : OptionTable) (cell : CellId) : Prop :=
  ∃ decl ∈ table.options, decl.Flags cell

instance (table : OptionTable) (cell : CellId) : Decidable (table.Flags cell) :=
  inferInstanceAs (Decidable (∃ decl ∈ table.options, decl.Flags cell))

namespace Host

/-- Resetting the flag of one option sets no other cell. -/
theorem cells_resetFlag (host : Host) (decl : OptionDecl) (cell : CellId) :
    (host.resetFlag decl).cells cell = if decl.Flags cell then 0 else host.cells cell := by
  unfold resetFlag
  cases flags : decl.flag? with
  | none => simp [OptionDecl.Flags, flags]
  | some flag => simp [OptionDecl.Flags, flags, write, eq_comm]

/-- Resetting the flags of some options sets the cells of these flags and no other. -/
theorem cells_foldl_resetFlag (host : Host) (options : List OptionDecl) (cell : CellId) :
    (options.foldl resetFlag host).cells cell =
      if ∃ decl ∈ options, decl.Flags cell then 0 else host.cells cell := by
  induction options generalizing host with
  | nil => simp
  | cons decl options ih =>
      rw [List.foldl_cons, ih, cells_resetFlag]
      by_cases here : decl.Flags cell
      · simp [here]
      · simp [here]

/-- A cell that the table has a flag on is set to zero with the table. -/
theorem cells_resetFlags_of_flags {table : OptionTable} {cell : CellId} (flags : table.Flags cell)
    (host : Host) : (host.resetFlags table).cells cell = 0 :=
  (cells_foldl_resetFlag host table.options cell).trans (if_pos flags)

/-- A cell that the table has no flag on is kept. -/
theorem cells_resetFlags_of_not_flags {table : OptionTable} {cell : CellId}
    (unflagged : ¬ table.Flags cell) (host : Host) :
    (host.resetFlags table).cells cell = host.cells cell :=
  (cells_foldl_resetFlag host table.options cell).trans (if_neg unflagged)

end Host

namespace Client

variable {client : Client} {cell : CellId} {flag : Flag} {action : Action} {history : List Action}

/-- An action that brings in a table with a flag on the cell. -/
inductive Introduces (cell : CellId) (client : Client) : Action → Prop where
  | start {setup : Setup} {table : OptionTable} {tokens : List String} {session : Session}
      (starts : (setup.start table tokens client.host).1 = .ok session)
      (flags : table.Flags cell) : Introduces cell client (.start setup table tokens)
  | extend {position : Nat} {session : Session} {link : Link} {reply : Reply}
      (here : client.sessions[position]? = some session)
      (replies : ((Live.mk session client.host).answer (.extend link)).1 = .ok reply)
      (flags : link.table.Flags cell) : Introduces cell client (.call position (.extend link))

/-- An action that matches an option with the flag. -/
inductive Stores (flag : Flag) (client : Client) : Action → Prop where
  | parse {position : Nat} {session : Session} {turn : Turn} {found : Found}
      {argument? : Option Value} (here : client.sessions[position]? = some session)
      (turns : session.turn = .ok turn) (fits : session.Matches turn found argument?)
      (flags : found.decl.flag? = some flag) : Stores flag client (.call position .parse)

/-- An action that stores the value of a match brings no table. -/
theorem Stores.not_introduces (stores : Stores flag client action) :
    ¬ Introduces cell client action := by
  cases stores with
  | parse here =>
      intro introduces
      cases introduces

/-- A table that comes sets its cells to zero. -/
theorem cells_act_of_introduces (sound : client.Sound)
    (introduces : Introduces cell client action) :
    (client.act action).host.cells cell = 0 := by
  have becomes := becomes_act sound action
  generalize client.act action = later at becomes ⊢
  cases introduces with
  | start starts flags =>
      cases becomes with
      | refused refuses => exact nomatch starts.symm.trans refuses
      | started => exact Host.cells_resetFlags_of_flags flags _
  | extend here replies flags =>
      cases becomes with
      | missing _ nowhere => exact nomatch here.symm.trans nowhere
      | called same _ becomes =>
          cases here.symm.trans same
          cases becomes with
          | refused refuses => exact nomatch replies.symm.trans refuses
          | extended => exact Host.cells_resetFlags_of_flags flags _

/-- A match of an option with a flag on the cell stores the value of the flag. -/
theorem cells_act_of_stores (sound : client.Sound) (stores : Stores flag client action) :
    (client.act action).host.cells flag.cell = flag.value := by
  have becomes := becomes_act sound action
  generalize client.act action = later at becomes ⊢
  cases stores with
  | @parse _ session _ _ _ here turns fits flags =>
      cases becomes with
      | missing _ nowhere => exact nomatch here.symm.trans nowhere
      | called same _ becomes =>
          cases here.symm.trans same
          cases becomes with
          | turned again =>
              cases turns.symm.trans again
              rw [fits.step_of_flag flags]
              exact Host.cells_write_self _ _ _
          | refused refuses =>
              obtain ⟨_, _, _, meets, _⟩ := fits.meets
              have answers := @Live.answer_parse ⟨session, client.host⟩ meets.not_released _ turns
              exact nomatch refuses.symm.trans (congrArg Prod.fst answers)

/-- Nothing else changes what a cell holds. -/
theorem cells_act_of_neither (sound : client.Sound) (unflagged : ¬ Introduces cell client action)
    (unmatched : ∀ value, ¬ Stores ⟨cell, value⟩ client action) :
    (client.act action).host.cells cell = client.host.cells cell := by
  have becomes := becomes_act sound action
  generalize client.act action = later at becomes ⊢
  cases becomes with
  | refused => rfl
  | missing => rfl
  | started starts =>
      apply Host.cells_resetFlags_of_not_flags
      exact fun flags => unflagged (.start starts flags)
  | called here _ becomes =>
      cases becomes with
      | refused => rfl
      | aborted => rfl
      | released => rfl
      | extended replies =>
          apply Host.cells_resetFlags_of_not_flags
          exact fun flags => unflagged (.extend here replies flags)
      | @turned turn turns _ acts =>
          by_cases handled : turn.step.outcome = .handled
          · obtain ⟨effect, effects, handles⟩ := acts.handled handled
            rw [effects]
            cases handles with
            | listener => rfl
            | @flag found argument? flag fits flags =>
                apply Host.cells_write_of_ne
                rintro rfl
                exact unmatched flag.value (.parse here turns fits flags)
          · rw [acts.otherwise handled]
            rfl

/-- No session has a table with a flag on the cell. -/
def Avoids (cell : CellId) (client : Client) : Prop :=
  ∀ session ∈ client.sessions, ∀ link ∈ session.chain.links, ¬ link.table.Flags cell

/-- A match that stores in a cell is of an option in a table that has come. -/
theorem Avoids.not_stores (avoids : client.Avoids cell) (value : Int32) :
    ¬ Stores ⟨cell, value⟩ client action := by
  intro stores
  cases stores with
  | parse here turns fits flags =>
      obtain ⟨_, _, _, _, spelled⟩ := fits.meets
      obtain ⟨link, linked, declared⟩ := Chain.mem_options_iff.mp spelled.mem_options
      apply avoids _ (List.mem_of_getElem? here) link (List.mem_of_getElem? linked)
      exact ⟨_, declared, by rw [OptionDecl.Flags, flags]; rfl⟩

/-- A table that is accepted brings the cells of all of its flags. -/
theorem Accepts.introduces {table : OptionTable} (accepts : client.Accepts action table)
    (flags : table.Flags cell) : Introduces cell client action := by
  cases accepts with
  | start starts => exact .start starts flags
  | extend here replies => exact .extend here replies flags

/-- A cell that no table has a flag on is still such a cell after an action that brings none. -/
theorem avoids_act (sound : client.Sound) (avoids : client.Avoids cell)
    (unflagged : ¬ Introduces cell client action) : (client.act action).Avoids cell := by
  intro session member link linked flags
  rcases linked_or_accepts_of_act sound member linked with ⟨earlier, before, kept⟩ | accepts
  · exact avoids earlier before link kept flags
  · exact unflagged (accepts.introduces flags)

/-- An event of a program at a position of a history. -/
def Happens (client : Client) (event : Client → Action → Prop) (history : List Action)
    (position : Nat) : Prop :=
  ∃ action, history[position]? = some action ∧
    event (client.after (history.take position)) action

variable {event : Client → Action → Prop} {position : Nat}

theorem Happens.lt (happens : client.Happens event history position) :
    position < history.length := by
  obtain ⟨_, here, _⟩ := happens
  exact (List.getElem?_eq_some_iff.mp here).1

/-- An event of a longer history was there before, or it is its last action. -/
theorem happens_concat_iff :
    client.Happens event (history ++ [action]) position ↔
      client.Happens event history position ∨
        position = history.length ∧ event (client.after history) action := by
  rcases Nat.lt_trichotomy position history.length with inside | rfl | outside
  · unfold Happens
    rw [List.getElem?_append_left inside, List.take_append_of_le_length (Nat.le_of_lt inside)]
    simp [Nat.ne_of_lt inside]
  · constructor
    · rintro ⟨other, here, occurs⟩
      rw [List.getElem?_concat_length, Option.some.injEq] at here
      rw [List.take_left, ← here] at occurs
      exact .inr ⟨rfl, occurs⟩
    · rintro (before | ⟨_, occurs⟩)
      · exact (Nat.lt_irrefl _ before.lt).elim
      · exact ⟨action, List.getElem?_concat_length, by rwa [List.take_left]⟩
  · constructor
    · intro happens
      have bound := happens.lt
      rw [List.length_append, List.length_singleton] at bound
      omega
    · rintro (before | ⟨rfl, _⟩)
      · exact (Nat.lt_asymm before.lt outside).elim
      · exact (Nat.lt_irrefl _ outside).elim

theorem Happens.concat (happens : client.Happens event history position) (action : Action) :
    client.Happens event (history ++ [action]) position :=
  happens_concat_iff.mpr (.inl happens)

theorem happens_last (occurs : event (client.after history) action) :
    client.Happens event (history ++ [action]) history.length :=
  happens_concat_iff.mpr (.inr ⟨rfl, occurs⟩)

/-- The event does not happen from the position on. -/
def Absent (client : Client) (event : Client → Action → Prop) (history : List Action)
    (start : Nat) : Prop :=
  ∀ position ≥ start, ¬ client.Happens event history position

/-- An event that has not happened still has not when an action follows that is none. -/
theorem Absent.concat {start : Nat} (absent : client.Absent event history start)
    (quiet : ¬ event (client.after history) action) :
    client.Absent event (history ++ [action]) start := by
  intro position behind happens
  rcases happens_concat_iff.mp happens with before | ⟨_, occurs⟩
  · exact absent position behind before
  · exact quiet occurs

theorem Absent.of_concat {start : Nat}
    (absent : client.Absent event (history ++ [action]) start) :
    client.Absent event history start :=
  fun position behind happens => absent position behind (happens.concat action)

/-- Nothing has happened yet behind the last action. -/
theorem absent_behind (client : Client) (event : Client → Action → Prop) (history : List Action)
    (action : Action) : client.Absent event (history ++ [action]) (history.length + 1) := by
  intro position behind happens
  have bound := happens.lt
  rw [List.length_append, List.length_singleton] at bound
  omega

/-- **What a cell holds by a history.** -/
inductive Accounts (client : Client) (cell : CellId) (history : List Action) : Int32 → Prop where
  /-- No table with a flag on the cell has come. -/
  | untouched (never : client.Absent (Introduces cell) history 0) :
      Accounts client cell history (client.host.cells cell)
  /-- There has been no match since the last such table. -/
  | reset {introduction : Nat}
      (introduced : client.Happens (Introduces cell) history introduction)
      (latest : client.Absent (Introduces cell) history (introduction + 1))
      (unmatched : ∀ value, client.Absent (Stores ⟨cell, value⟩) history (introduction + 1)) :
      Accounts client cell history 0
  /-- There has been one since, and this is the last. -/
  | stored {introduction storing : Nat} {value : Int32}
      (introduced : client.Happens (Introduces cell) history introduction)
      (latest : client.Absent (Introduces cell) history (introduction + 1))
      (behind : introduction < storing)
      (stored : client.Happens (Stores ⟨cell, value⟩) history storing)
      (last : ∀ other, client.Absent (Stores ⟨cell, other⟩) history (storing + 1)) :
      Accounts client cell history value

/-- As long as no table with a flag on a cell comes, no session has one. -/
theorem avoids_after (sound : client.Sound) (avoids : client.Avoids cell)
    (never : client.Absent (Introduces cell) history 0) : (client.after history).Avoids cell := by
  induction history using List.reverseRecOn with
  | nil => exact avoids
  | append_singleton history action ih =>
      rw [after_concat]
      apply avoids_act (sound_after sound history) (ih never.of_concat)
      exact fun introduces => never _ (Nat.zero_le _) (happens_last introduces)

variable {value : Int32}

/-- A cell holds zero once an action brings a table with a flag on it. -/
theorem accounts_of_introduces (introduces : Introduces cell (client.after history) action) :
    client.Accounts cell (history ++ [action]) 0 :=
  .reset (happens_last introduces) (absent_behind _ _ _ _) (fun _ => absent_behind _ _ _ _)

/-- A match that stores in a cell follows a table with a flag on the cell. -/
theorem Accounts.concat_of_stores {before : Int32} (accounts : client.Accounts cell history before)
    (sound : client.Sound) (avoids : client.Avoids cell)
    (stores : Stores ⟨cell, value⟩ (client.after history) action) :
    client.Accounts cell (history ++ [action]) value := by
  have came : ∃ introduction, client.Happens (Introduces cell) history introduction ∧
      client.Absent (Introduces cell) history (introduction + 1) := by
    cases accounts with
    | untouched never =>
        exact ((avoids_after sound avoids never).not_stores value stores).elim
    | reset introduced latest => exact ⟨_, introduced, latest⟩
    | stored introduced latest => exact ⟨_, introduced, latest⟩
  obtain ⟨introduction, introduced, latest⟩ := came
  exact .stored (introduced.concat action) (latest.concat stores.not_introduces) introduced.lt
    (happens_last stores) (fun _ => absent_behind _ _ _ _)

/-- A cell holds what it did before when an action neither brings a table for it nor stores a match
in it. -/
theorem Accounts.concat (accounts : client.Accounts cell history value)
    (unflagged : ¬ Introduces cell (client.after history) action)
    (unmatched : ∀ value, ¬ Stores ⟨cell, value⟩ (client.after history) action) :
    client.Accounts cell (history ++ [action]) value := by
  cases accounts with
  | untouched never => exact .untouched (never.concat unflagged)
  | reset introduced latest none =>
      exact .reset (introduced.concat action) (latest.concat unflagged)
        (fun other => (none other).concat (unmatched other))
  | stored introduced latest behind stored last =>
      exact .stored (introduced.concat action) (latest.concat unflagged) behind
        (stored.concat action) (fun other => (last other).concat (unmatched other))

/-- A cell holds what the history accounts for, if no session had a table with a flag on it at
first. -/
theorem accounts_after (sound : client.Sound) (avoids : client.Avoids cell)
    (history : List Action) :
    client.Accounts cell history ((client.after history).host.cells cell) := by
  -- The last action introduces the cell, or stores in it, or leaves it as it was.
  induction history using List.reverseRecOn with
  | nil =>
      apply Accounts.untouched
      intro position _ happens
      exact nomatch happens.lt
  | append_singleton history action ih =>
      have soundBefore := sound_after sound history
      rw [after_concat]
      by_cases introduces : Introduces cell (client.after history) action
      · rw [cells_act_of_introduces soundBefore introduces]
        exact accounts_of_introduces introduces
      · by_cases stores : ∃ value, Stores ⟨cell, value⟩ (client.after history) action
        · obtain ⟨value, stores⟩ := stores
          rw [show _ = value from cells_act_of_stores soundBefore stores]
          exact ih.concat_of_stores sound avoids stores
        · have unmatched := not_exists.mp stores
          rw [cells_act_of_neither soundBefore introduces unmatched]
          exact ih.concat introduces unmatched

/-- **One act for each match that is dealt with, and cells by what has happened to them.** After
any history of a program, a session that parses does one thing to the program if it deals with
a match itself and nothing otherwise, and each cell holds what the history accounts for. -/
theorem accounts_for_cells (host : Host) (history : List Action) :
    let client := (Client.mk [] host).after history
    (∀ session ∈ client.sessions,
      let live : Live := ⟨session, client.host⟩
      session.phase = .released ∧ live.parse = (.error (.released .parse), live) ∨
        ∃ turn, live.parse = (.ok turn.step.outcome,
            ⟨turn.session, client.host.performAll turn.step.effects⟩) ∧ session.Acts turn) ∧
      ∀ cell, (Client.mk [] host).Accounts cell history (client.host.cells cell) := by
  intro client
  have sound : (Client.mk [] host).Sound := fun session member => nomatch member
  constructor
  · intro session member live
    rcases sound_after sound history session member with ⟨original, alive⟩ | released
    · obtain ⟨turn, turns, _⟩ := alive.exists_turn
      right
      exact ⟨turn, @Live.parse_eq live alive.not_released turn turns, alive.acts_of_turn turns⟩
    · left
      exact ⟨released, if_pos released⟩
  · intro cell
    exact accounts_after sound (fun session member => nomatch member) history

/-- A table that is added resets a cell that another one has written, and the session goes on. -/
theorem accounts_for_shared_cell :
    let history : List Action :=
      [.start {} ⟨[(OptionDecl.short 'v').flagging 0 7]⟩ ["prog", "-v", "-v"], .call 0 .parse,
        .call 0 (.extend ⟨⟨[(OptionDecl.short 'w').flagging 0 9]⟩, none⟩)]
    let first : Client := ⟨[], ⟨fun _ => 5, []⟩⟩
    let client := first.after history
    (first.after (history.take 2)).host.cells 0 = 7 ∧ first.Accounts 0 history 0 ∧
      first.Accounts 1 history 5 ∧
      ∃ session ∈ client.sessions, ∃ turn,
        (Live.mk session client.host).parse = (.ok turn.step.outcome,
          ⟨turn.session, client.host.performAll turn.step.effects⟩) ∧ session.Acts turn := by
  intro history first client
  have written : (first.after (history.take 2)).host.cells 0 = 7 := by cbv
  have reset : client.host.cells 0 = 0 := by cbv
  have other : client.host.cells 1 = 5 := by cbv
  have reading : ∃ session ∈ client.sessions, session.phase ≠ .released := by
    have any : client.sessions.any (fun session => decide (session.phase ≠ .released)) = true := by
      cbv
    simpa using any
  obtain ⟨acts, accounts⟩ := accounts_for_cells first.host history
  refine ⟨written, reset ▸ accounts 0, other ▸ accounts 1, ?_⟩
  obtain ⟨session, member, active⟩ := reading
  rcases acts session member with ⟨released, _⟩ | parses
  · exact (active released).elim
  · exact ⟨session, member, parses⟩

end Client

end CommandLine
