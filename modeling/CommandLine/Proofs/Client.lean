import CommandLine.Proofs.Session.Match

/-!
# A program and its sessions

A program starts sessions and makes calls on them in any order, and its sessions share its
cells and its listeners. Each session has been released or goes on reading its vector
(`CommandLine.Client.sound_after`), so an action does one of the things that
`CommandLine.Client.Becomes` and `CommandLine.Live.Becomes` list.
-/

namespace CommandLine

variable {original : List String}

/-- A session that a program holds: it goes on reading its vector, or has been released. -/
def Session.Held (session : Session) : Prop :=
  (∃ original, session.Alive original) ∨ session.phase = .released

namespace Live

variable {live : Live}

/-- What a call makes of a session and its program. -/
inductive Becomes (live : Live) : Call → Live → Prop where
  | refused {call : Call} {fault : Fault} (refuses : (live.answer call).1 = .error fault) :
      Becomes live call live
  | turned {turn : Turn} (turns : live.session.turn = .ok turn)
      (chain : turn.session.chain = live.session.chain) (acts : live.session.Acts turn) :
      Becomes live .parse ⟨turn.session, live.host.performAll turn.step.effects⟩
  | aborted {aborted : Session} (chain : aborted.chain = live.session.chain) :
      Becomes live .abort ⟨aborted, live.host⟩
  | extended {link : Link} {reply : Reply}
      (replies : (live.answer (.extend link)).1 = .ok reply) :
      Becomes live (.extend link)
        ⟨{ live.session with chain := live.session.chain.append link },
          live.host.resetFlags link.table⟩
  | released : Becomes live .free ⟨live.session.release, live.host⟩

/-- A call that is answered with a fault and changes nothing is a refusal, whichever call it is. -/
theorem becomes_of_refusal {call : Call} {fault : Fault}
    (refuses : live.answer call = (.error fault, live)) :
    live.Becomes call (live.answer call).2 := by
  rw [refuses]
  exact .refused (congrArg Prod.fst refuses)

/-- **A call does one of five things** to a session that a program holds. -/
theorem becomes_answer (held : live.session.Held) (call : Call) :
    live.Becomes call (live.answer call).2 := by
  rcases held with ⟨original, alive⟩ | released
  · have active := alive.not_released
    cases call with
    | free => exact .released
    | parse =>
        obtain ⟨turn, turns, _⟩ := alive.exists_turn
        rw [answer_parse active turns]
        exact .turned turns (alive.chain_of_turn turns) (alive.acts_of_turn turns)
    | abort =>
        obtain ⟨aborted, aborts, _⟩ := alive.exists_abort
        rw [answer_abort active aborts]
        exact .aborted (alive.chain_of_abort aborts)
    | extend link =>
        cases checked : link.table.error? with
        | some error => exact becomes_of_refusal (answer_extend_of_error active checked)
        | none =>
            have extended := answer_extend_of_valid active checked
            rw [extended]
            exact .extended (congrArg Prod.fst extended)
  · cases call with
    | free => exact .released
    | parse => exact becomes_of_refusal (answer_parse_of_released released)
    | abort => exact becomes_of_refusal (answer_abort_of_released released)
    | extend link => exact becomes_of_refusal (answer_extend_of_released released link)

/-- A call leaves a session that goes on reading its vector, or one that has been released. -/
theorem held_answer (held : live.session.Held) (call : Call) :
    (live.answer call).2.session.Held := by
  rcases held with ⟨original, alive⟩ | released
  · rcases alive_or_released_after alive [call] with later | released
    · exact .inl ⟨original, later⟩
    · exact .inr released
  · rw [answer_of_released released]
    exact .inr released

end Live

/-- A program with the sessions that it has started. -/
structure Client where
  sessions : List Session := []
  host : Host

/-- What a program does: it starts a session, or makes a call on the session that it has
started at a position. -/
inductive Action where
  | start (setup : Setup) (table : OptionTable) (tokens : List String)
  | call (position : Nat) (call : Call)
deriving DecidableEq

namespace Client

variable {client : Client}

/-- Only a session that starts is added, and a call where there is no session does nothing. What
the cells and the listeners are told is kept also when no session starts. -/
def act (client : Client) : Action → Client
  | .start setup table tokens =>
      match setup.start table tokens client.host with
      | (.error _, host) => { client with host := host }
      | (.ok session, host) => ⟨client.sessions ++ [session], host⟩
  | .call position call =>
      match client.sessions[position]? with
      | none => client
      | some session =>
          let live := ((Live.mk session client.host).answer call).2
          ⟨client.sessions.set position live.session, live.host⟩

/-- A program after a history of actions. -/
def after (client : Client) (history : List Action) : Client :=
  history.foldl act client

theorem after_concat (client : Client) (history : List Action) (action : Action) :
    client.after (history ++ [action]) = (client.after history).act action :=
  List.foldl_append

/-- Every session that has been started goes on reading its vector or has been released. -/
def Sound (client : Client) : Prop :=
  ∀ session ∈ client.sessions, session.Held

/-- What an action makes of a program. -/
inductive Becomes (client : Client) : Action → Client → Prop where
  | refused {setup : Setup} {table : OptionTable} {tokens : List String} {fault : Fault}
      (refuses : (setup.start table tokens client.host).1 = .error fault) :
      Becomes client (.start setup table tokens) client
  | started {setup : Setup} {table : OptionTable} {tokens : List String}
      (starts : (setup.start table tokens client.host).1 = .ok (setup.session table tokens)) :
      Becomes client (.start setup table tokens)
        ⟨client.sessions ++ [setup.session table tokens], client.host.resetFlags table⟩
  | missing {position : Nat} (call : Call) (nowhere : client.sessions[position]? = none) :
      Becomes client (.call position call) client
  | called {position : Nat} {session : Session} {call : Call} {later : Live}
      (here : client.sessions[position]? = some session) (held : later.session.Held)
      (becomes : (Live.mk session client.host).Becomes call later) :
      Becomes client (.call position call)
        ⟨client.sessions.set position later.session, later.host⟩

/-- **An action does one of four things**, whatever the state of its session. -/
theorem becomes_act (sound : client.Sound) (action : Action) :
    client.Becomes action (client.act action) := by
  cases action with
  | start setup table tokens =>
      rcases setup.start_refuses_or_starts table tokens client.host with ⟨fault, refuses⟩ | starts
      · rw [act, refuses]
        exact .refused (congrArg Prod.fst refuses)
      · rw [act, starts]
        exact .started (congrArg Prod.fst starts)
  | call position call =>
      rw [act]
      cases here : client.sessions[position]? with
      | none => exact .missing call here
      | some session =>
          have held := sound session (List.mem_of_getElem? here)
          exact .called here (@Live.held_answer ⟨session, client.host⟩ held call)
            (@Live.becomes_answer ⟨session, client.host⟩ held call)

theorem sound_act (sound : client.Sound) (action : Action) : (client.act action).Sound := by
  have becomes := becomes_act sound action
  generalize client.act action = later at becomes
  cases becomes with
  | refused => exact sound
  | missing => exact sound
  | @started setup table tokens =>
      intro session member
      rcases List.mem_append.mp member with before | fresh
      · exact sound session before
      · rw [List.mem_singleton.mp fresh]
        exact .inl ⟨tokens, setup.session_alive table tokens⟩
  | called here held =>
      intro session member
      rcases List.mem_or_eq_of_mem_set member with before | rfl
      · exact sound session before
      · exact held

/-- Whatever a program does, its sessions go on reading their vectors or have been released. -/
theorem sound_after (sound : client.Sound) (history : List Action) :
    (client.after history).Sound := by
  induction history generalizing client with
  | nil => exact sound
  | cons action history ih => exact ih (sound_act sound action)

/-- The action brings a table, which is accepted. -/
inductive Accepts (client : Client) : Action → OptionTable → Prop where
  | start {setup : Setup} {table : OptionTable} {tokens : List String} {session : Session}
      (starts : (setup.start table tokens client.host).1 = .ok session) :
      Accepts client (.start setup table tokens) table
  | extend {position : Nat} {session : Session} {link : Link} {reply : Reply}
      (here : client.sessions[position]? = some session)
      (replies : ((Live.mk session client.host).answer (.extend link)).1 = .ok reply) :
      Accepts client (.call position (.extend link)) link.table

/-- A table of a session has been that of a session before, or is accepted. -/
theorem linked_or_accepts_of_act (sound : client.Sound) {action : Action} {session : Session}
    (member : session ∈ (client.act action).sessions) {link : Link}
    (linked : link ∈ session.chain.links) :
    (∃ earlier ∈ client.sessions, link ∈ earlier.chain.links) ∨
      client.Accepts action link.table := by
  have becomes := becomes_act sound action
  generalize client.act action = later at becomes member
  cases becomes with
  | refused => exact .inl ⟨session, member, linked⟩
  | missing => exact .inl ⟨session, member, linked⟩
  | started starts =>
      rcases List.mem_append.mp member with before | fresh
      · exact .inl ⟨session, before, linked⟩
      · rw [List.mem_singleton.mp fresh] at linked
        rw [List.mem_singleton.mp linked]
        exact .inr (.start starts)
  | called here _ becomes =>
      have before := List.mem_of_getElem? here
      rcases List.mem_or_eq_of_mem_set member with kept | rfl
      · exact .inl ⟨session, kept, linked⟩
      · cases becomes with
        | refused => exact .inl ⟨_, before, linked⟩
        | turned _ chain => exact .inl ⟨_, before, chain ▸ linked⟩
        | aborted chain => exact .inl ⟨_, before, chain ▸ linked⟩
        | released => exact .inl ⟨_, before, Session.links_release linked⟩
        | extended replies =>
            rcases Chain.mem_links_append.mp linked with old | rfl
            · exact .inl ⟨_, before, old⟩
            · exact .inr (.extend here replies)

end Client

end CommandLine
