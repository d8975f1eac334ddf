import Mathlib
import CommandLine.Proofs.FlagCells

/-!
# What is refused leaves no trace

An action breaks a rule of the library when it asks something of a session that has been
released, when it brings a table that is not valid, or when it starts a session under a
separator that no path can hold. The actions that break a rule are those that are answered
with a fault, and each leaves the program, its sessions and its cells as they were. So the
tables of a session are valid whatever has been done before, and a cell keeps its first content
as long as no table with a flag on it has been accepted
(`CommandLine.Client.refusals_leave_no_trace`).
-/

namespace CommandLine

/-- The calls that a session refuses, and why. -/
inductive Session.Refuses (session : Session) : Call → Fault → Prop where
  | parse (released : session.phase = .released) : Refuses session .parse (.released .parse)
  | abort (released : session.phase = .released) : Refuses session .abort (.released .abort)
  | extend (released : session.phase = .released) (link : Link) :
      Refuses session (.extend link) (.released .extend)
  | malformed (active : session.phase ≠ .released) {link : Link} {error : TableError}
      (broken : link.table.error? = some error) :
      Refuses session (.extend link) (.malformedTable error)

/-- The tables for which no session is started, and why. -/
inductive Setup.Refuses (setup : Setup) (table : OptionTable) : Fault → Prop where
  | nullSeparator (unusable : setup.separator = '\x00') : Refuses setup table .nullSeparator
  | malformed (usable : setup.separator ≠ '\x00') {error : TableError}
      (broken : table.error? = some error) : Refuses setup table (.malformedTable error)

namespace Live

variable {live : Live} {call : Call} {fault : Fault}

/-- A call that is refused is answered with its fault and changes neither session nor host. -/
theorem answer_of_refuses (refuses : live.session.Refuses call fault) :
    live.answer call = (.error fault, live) := by
  cases refuses with
  | parse released => exact answer_parse_of_released released
  | abort released => exact answer_abort_of_released released
  | extend released link => exact answer_extend_of_released released link
  | malformed active broken => exact answer_extend_of_error active broken

/-- A session that a program holds answers a call that it does not refuse. -/
theorem answers_or_refuses (held : live.session.Held) (call : Call) :
    (∃ reply, (live.answer call).1 = .ok reply) ∨ ∃ fault, live.session.Refuses call fault := by
  rcases held with ⟨original, alive⟩ | released
  · cases call with
    | free => exact .inl ⟨_, rfl⟩
    | parse => exact .inl (answer_eq_ok alive nofun nofun)
    | abort => exact .inl (answer_eq_ok alive nofun nofun)
    | extend link =>
        cases checked : link.table.error? with
        | some error => exact .inr ⟨_, .malformed alive.not_released checked⟩
        | none =>
            have extended := answer_extend_of_valid alive.not_released checked
            exact .inl ⟨_, congrArg Prod.fst extended⟩
  · cases call with
    | free => exact .inl ⟨_, rfl⟩
    | parse => exact .inr ⟨_, .parse released⟩
    | abort => exact .inr ⟨_, .abort released⟩
    | extend link => exact .inr ⟨_, .extend released link⟩

/-- The calls that are answered with a fault are those that break a rule, and the fault names it. -/
theorem fails_iff_refuses (held : live.session.Held) :
    (live.answer call).1 = .error fault ↔ live.session.Refuses call fault := by
  constructor
  · intro fails
    rcases answers_or_refuses held call with ⟨reply, answers⟩ | ⟨other, refuses⟩
    · exact nomatch fails.symm.trans answers
    · rw [answer_of_refuses refuses] at fails
      cases fails
      exact refuses
  · intro refuses
    rw [answer_of_refuses refuses]

/-- Only a valid table is added. -/
theorem valid_of_extends {link : Link} {reply : Reply}
    (replies : (live.answer (.extend link)).1 = .ok reply) : link.table.Valid := by
  by_cases released : live.session.phase = .released
  · rw [answer_extend_of_released released] at replies
    exact nomatch replies
  · cases checked : link.table.error? with
    | none => exact checked
    | some error =>
        rw [answer_extend_of_error released checked] at replies
        exact nomatch replies

end Live

/-- A start that is refused hands back the host that it was given. -/
theorem Setup.start_of_refuses {setup : Setup} {table : OptionTable} {fault : Fault}
    (refuses : setup.Refuses table fault) (tokens : List String) (host : Host) :
    setup.start table tokens host = (.error fault, host) := by
  unfold start
  cases refuses with
  | nullSeparator unusable => rw [if_pos unusable]
  | malformed usable broken => rw [if_neg usable, broken]

/-- The starts that fail are those that break a rule, and the fault names it. -/
theorem Setup.fails_iff_refuses {setup : Setup} {table : OptionTable} {fault : Fault}
    {tokens : List String} {host : Host} :
    (setup.start table tokens host).1 = .error fault ↔ setup.Refuses table fault := by
  constructor
  · intro fails
    by_cases unusable : setup.separator = '\x00'
    · rw [start_of_refuses (.nullSeparator unusable)] at fails
      cases fails
      exact .nullSeparator unusable
    · cases checked : table.error? with
      | some error =>
          rw [start_of_refuses (.malformed unusable checked)] at fails
          cases fails
          exact .malformed unusable checked
      | none =>
          rw [start_of_valid unusable checked] at fails
          exact nomatch fails
  · intro refuses
    rw [start_of_refuses refuses]

namespace Client

variable {client : Client} {action : Action} {fault : Fault} {cell : CellId}

/-- The action is answered with a fault. -/
inductive Fails (client : Client) : Action → Fault → Prop where
  | start {setup : Setup} {table : OptionTable} {tokens : List String} {fault : Fault}
      (fails : (setup.start table tokens client.host).1 = .error fault) :
      Fails client (.start setup table tokens) fault
  | call {position : Nat} {session : Session} {call : Call} {fault : Fault}
      (here : client.sessions[position]? = some session)
      (fails : ((Live.mk session client.host).answer call).1 = .error fault) :
      Fails client (.call position call) fault

/-- The action breaks a rule. -/
inductive Breaks (client : Client) : Action → Fault → Prop where
  | start {setup : Setup} {table : OptionTable} {fault : Fault}
      (refuses : setup.Refuses table fault) (tokens : List String) :
      Breaks client (.start setup table tokens) fault
  | call {position : Nat} {session : Session} {call : Call} {fault : Fault}
      (here : client.sessions[position]? = some session)
      (refuses : session.Refuses call fault) : Breaks client (.call position call) fault

/-- The actions that fail are those that break a rule, and the fault names it. -/
theorem fails_iff_breaks (sound : client.Sound) :
    client.Fails action fault ↔ client.Breaks action fault := by
  constructor
  · intro fails
    cases fails with
    | start fails => exact .start (Setup.fails_iff_refuses.mp fails) _
    | @call _ session _ _ here fails =>
        have held := sound session (List.mem_of_getElem? here)
        exact .call here ((@Live.fails_iff_refuses ⟨session, client.host⟩ _ _ held).mp fails)
  · intro breaks
    cases breaks with
    | start refuses tokens => exact .start (Setup.fails_iff_refuses.mpr refuses)
    | @call _ session _ _ here refuses =>
        have held := sound session (List.mem_of_getElem? here)
        exact .call here ((@Live.fails_iff_refuses ⟨session, client.host⟩ _ _ held).mpr refuses)

/-- An action that breaks a rule changes nothing. -/
theorem act_of_breaks (breaks : client.Breaks action fault) : client.act action = client := by
  cases breaks with
  | start refuses tokens => rw [act, Setup.start_of_refuses refuses]
  | @call position session call _ here refuses =>
      have refused := @Live.answer_of_refuses ⟨session, client.host⟩ _ _ refuses
      simp only [act, here, refused]
      have stays : client.sessions.set position session = client.sessions := by
        obtain ⟨inside, same⟩ := List.getElem?_eq_some_iff.mp here
        rw [← same]
        exact List.set_getElem_self inside
      rw [stays]

/-- The tables of each session are valid. -/
def Valid (client : Client) : Prop :=
  ∀ session ∈ client.sessions, session.chain.Valid

/-- A table that an action brings in is valid. -/
theorem Accepts.valid {table : OptionTable} (accepts : client.Accepts action table) :
    table.Valid := by
  cases accepts with
  | start starts => exact (Setup.valid_of_start (Prod.ext starts rfl)).2
  | extend _ replies => exact Live.valid_of_extends replies

theorem valid_act (sound : client.Sound) (valid : client.Valid) (action : Action) :
    (client.act action).Valid := by
  intro session member link linked
  rcases linked_or_accepts_of_act sound member linked with ⟨earlier, before, kept⟩ | accepts
  · exact valid earlier before link kept
  · exact accepts.valid

/-- The tables of all sessions are valid after every history. -/
theorem valid_after (sound : client.Sound) (valid : client.Valid) (history : List Action) :
    (client.after history).Valid := by
  induction history generalizing client with
  | nil => exact valid
  | cons action history ih => exact ih (sound_act sound action) (valid_act sound valid action)

/-- A cell keeps its first content as long as no table with a flag on it is accepted. -/
theorem cells_after_of_absent (sound : client.Sound) (avoids : client.Avoids cell)
    {history : List Action} (never : client.Absent (Introduces cell) history 0) :
    (client.after history).host.cells cell = client.host.cells cell := by
  have accounts := accounts_after sound avoids history
  generalize (client.after history).host.cells cell = value at accounts
  cases accounts with
  | untouched => rfl
  | reset introduced => exact (never _ (Nat.zero_le _) introduced).elim
  | stored introduced => exact (never _ (Nat.zero_le _) introduced).elim

/-- **What is refused leaves no trace.** Whatever has been done before, and whatever the cells
and the listeners hold by then, an action fails exactly when it breaks a rule, and then neither
the sessions nor the cells nor the listeners are changed. The tables of all sessions are valid,
and a cell has its first content if no table with a flag on it has been accepted. -/
theorem refusals_leave_no_trace (host : Host) (history : List Action) :
    let reached := (Client.mk [] host).after history
    (∀ world action fault,
      let client : Client := { reached with host := world }
      (client.Fails action fault ↔ client.Breaks action fault) ∧
        (client.Breaks action fault → client.act action = client)) ∧
      (∀ session ∈ reached.sessions, session.chain.Valid) ∧
      ∀ cell, (Client.mk [] host).Absent (Introduces cell) history 0 →
        reached.host.cells cell = host.cells cell := by
  intro reached
  have sound : (Client.mk [] host).Sound := fun session member => nomatch member
  refine ⟨?_, ?_, ?_⟩
  · intro world action fault client
    have held : client.Sound := sound_after sound history
    exact ⟨fails_iff_breaks held, act_of_breaks⟩
  · exact valid_after sound (fun session member => nomatch member) history
  · intro cell never
    exact cells_after_of_absent sound (fun session member => nomatch member) never

/-- A table whose last option breaks a rule is refused as often as it comes. -/
theorem refusals_leave_no_trace_malformed :
    let library : Link := ⟨⟨[(OptionDecl.short 'w').flagging 1 9, .short '?']⟩, some 0⟩
    let extension : Action := .call 0 (.extend library)
    let history : List Action :=
      [.start {} ⟨[(OptionDecl.short 'v').flagging 0 7]⟩ ["prog", "-v", "-w"], extension]
    let client := (Client.mk [] ⟨fun _ => 5, []⟩).after history
    client.Fails extension (.malformedTable (.reservedCode "" '?'.val)) ∧
      client.act extension = client ∧ (∃ session ∈ client.sessions, session.chain.Valid) ∧
      client.host.cells 0 = 0 ∧ client.host.cells 1 = 5 := by
  intro library extension history client
  have reading : client.sessions[0]?.map Session.phase = some .scanning := by cbv
  have written : client.host.cells 0 = 0 := by cbv
  have never : (Client.mk [] ⟨fun _ => 5, []⟩).Absent (Introduces 1) history 0 := by
    rintro position - ⟨action, here, introduces⟩
    have member := List.mem_of_getElem? here
    cases introduces with
    | start starts flags =>
        simp only [history, extension, List.mem_cons, Action.start.injEq, reduceCtorEq,
          List.not_mem_nil, or_false] at member
        rw [member.2.1] at flags
        exact absurd flags (by decide)
    | extend _ replies _ =>
        simp only [history, extension, List.mem_cons, Action.call.injEq, Call.extend.injEq,
          reduceCtorEq, List.not_mem_nil, or_false, false_or] at member
        have accepted := Live.valid_of_extends replies
        rw [member.2] at accepted
        exact absurd accepted (by decide)
  obtain ⟨session, here, scanning⟩ := Option.map_eq_some_iff.mp reading
  obtain ⟨refuses, accepted, kept⟩ := refusals_leave_no_trace ⟨fun _ => 5, []⟩ history
  obtain ⟨fails, changes⟩ :=
    refuses client.host extension (.malformedTable (.reservedCode "" '?'.val))
  have breaks : client.Breaks extension (.malformedTable (.reservedCode "" '?'.val)) :=
    .call here (.malformed (by simp [scanning]) rfl)
  have member := List.mem_of_getElem? here
  exact ⟨fails.mpr breaks, changes breaks, ⟨session, member, accepted session member⟩, written,
    kept 1 never⟩

end Client

end CommandLine
