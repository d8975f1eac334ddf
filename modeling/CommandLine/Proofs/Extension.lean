import Mathlib
import CommandLine.Proofs.Chain.Lookup
import CommandLine.Proofs.Delivery
import CommandLine.Proofs.FlagCells
import CommandLine.Proofs.Session.OnChain

/-!
# A further table beside the others

A table that is added before anything is read does not disturb the options that are there
already. An option keeps its step, unless it is unknown without the table or its long name is
one that the table has a say in (`CommandLine.Spelling.agrees_append`). So a session that comes
to no such option answers all calls to parse as it would without the table, passes the same
operands and tells the same listeners of the same matches; the cells that only the table has
flags on hold zero (`CommandLine.Setup.extension_disturbs_nothing`).
-/

namespace CommandLine

variable {original : List String}

namespace Reading

variable {chain : Chain} {found : Found}

/-- The table of an option stands where it did. -/
theorem matchStep_append (declared : found ∈ chain.options) (link : Link) :
    matchStep (chain.append link) found = matchStep chain found := by
  obtain ⟨home, linked, _⟩ := Chain.mem_options_iff.mp declared
  have links : (chain.append link).links = chain.links ++ [link] := rfl
  have inside := (List.getElem?_eq_some_iff.mp linked).1
  funext argument?
  unfold matchStep
  rw [links, List.getElem?_append_left inside]

end Reading

namespace Spelling

variable {chain : Chain} {link : Link} {spelling : Spelling} {rest : List String}

/-- An option means the same with a further table, unless it is unknown without the table or its
long name is one that the table has a say in. -/
theorem agrees_append
    (known : ∀ text, (spelling.step chain rest).1.outcome ≠ .failed (.unknownOption text))
    (settles : ∀ body, spelling = .long body →
      chain.Settles link.table (String.ofList (Text.splitFirst '=' body).1)) :
    spelling.Agrees chain (chain.append link) rest := by
  cases spelling with
  | letter c letters =>
      cases finds : chain.findShort? c with
      | none =>
          refine (known (Diagnostic.shortOption c.val) ?_).elim
          rw [step, Reading.letterStep_of_unknown finds]
          rfl
      | some found =>
          have same := Chain.findShort?_append finds link
          constructor
          · apply Reading.letterStep_congr (same.trans finds.symm)
            intro other finds
            exact Reading.matchStep_append (Chain.mem_options_of_findShort? finds) link
          · rw [target, target, finds, same]
  | long body =>
      have same := Chain.findLong_append_of_settles (settles body rfl)
      constructor
      · apply Reading.longStep_congr same
        intro other finds
        exact Reading.matchStep_append (Chain.mem_options_of_findLong finds) link
      · rw [target, target, same]

end Spelling

/-- The session looks up a long name in its next turn. -/
def Session.LooksUp (session : Session) (name : String) : Prop :=
  ∃ passed body rest, session.Meets passed (.long body) rest ∧
    name = String.ofList (Text.splitFirst '=' body).1

/-- The long names that a session looks up are those of tokens of its vector. -/
theorem Session.LooksUp.exists_token {session : Session} {name : String}
    (looks : session.LooksUp name) (alive : session.Alive original) :
    ∃ token ∈ original, ∃ body, token.toList = '-' :: '-' :: body ∧
      name = String.ofList (Text.splitFirst '=' body).1 := by
  obtain ⟨passed, body, rest, meets, rfl⟩ := looks
  obtain ⟨token, here, stands, _⟩ := meets.exists_token
  rw [(alive.layout meets.scanning).getElem?_eq (Nat.le_add_right _ _)] at here
  exact ⟨token, List.mem_of_getElem? here, body, stands, rfl⟩

/-- A table of the chain has a flag on the cell. -/
def Chain.Flags (chain : Chain) (cell : CellId) : Prop :=
  ∃ link ∈ chain.links, link.table.Flags cell

instance (chain : Chain) (cell : CellId) : Decidable (chain.Flags cell) :=
  inferInstanceAs (Decidable (∃ link ∈ chain.links, link.table.Flags cell))

/-- The flag of a declared option is one of the flags of the chain. -/
theorem Chain.flags_of_mem_options {chain : Chain} {found : Found} {cell : CellId}
    (declared : found ∈ chain.options) (flags : found.decl.Flags cell) : chain.Flags cell := by
  obtain ⟨link, linked, member⟩ := mem_options_iff.mp declared
  exact ⟨link, List.mem_of_getElem? linked, found.decl, member, flags⟩

namespace Host

/-- The program with the cells at zero that a table has flags on and a chain has not. -/
def beside (host : Host) (chain : Chain) (table : OptionTable) : Host :=
  { host with
    cells := fun cell =>
      if table.Flags cell ∧ ¬ chain.Flags cell then 0 else host.cells cell }

/-- Writing a cell of the chain leaves the cells that only the further table has at zero. -/
theorem beside_write {chain : Chain} {cell : CellId} (flags : chain.Flags cell) (host : Host)
    (table : OptionTable) (value : Int32) :
    (host.beside chain table).write cell value = (host.write cell value).beside chain table := by
  unfold beside write
  congr 1
  funext other
  by_cases same : other = cell
  · subst same
    simp [flags]
  · simp [same]

/-- The tables of a list set the cells of their flags to zero. -/
theorem cells_foldl_resetFlags (host : Host) (links : List Link) (cell : CellId) :
    (links.foldl (fun host link => host.resetFlags link.table) host).cells cell =
      if ∃ link ∈ links, link.table.Flags cell then 0 else host.cells cell := by
  induction links generalizing host with
  | nil => simp
  | cons link links ih =>
      rw [List.foldl_cons, ih]
      by_cases flags : link.table.Flags cell
      · simp [flags, cells_resetFlags_of_flags flags]
      · simp [flags, cells_resetFlags_of_not_flags flags]

theorem notified_foldl_resetFlags (host : Host) (links : List Link) :
    (links.foldl (fun host link => host.resetFlags link.table) host).notified = host.notified := by
  induction links generalizing host with
  | nil => rfl
  | cons link links ih => rw [List.foldl_cons, ih, notified_resetFlags]

/-- A further table sets its cells to zero, which those of the chain are already. -/
theorem resetFlags_eq_beside {host : Host} {chain : Chain}
    (reset : ∀ cell, chain.Flags cell → host.cells cell = 0) (table : OptionTable) :
    host.resetFlags table = host.beside chain table := by
  have cells : (host.resetFlags table).cells = (host.beside chain table).cells := by
    funext cell
    unfold beside
    dsimp only
    by_cases flags : table.Flags cell
    · rw [cells_resetFlags_of_flags flags]
      by_cases shared : chain.Flags cell
      · simp [shared, reset cell shared]
      · simp [flags, shared]
    · simp [flags, cells_resetFlags_of_not_flags flags]
  exact congrArg₂ Host.mk cells (notified_resetFlags host table)

end Host

/-- What a turn does to a program, it does to one with a further table. -/
theorem Session.Acts.performAll_beside {session : Session} {turn : Turn} (acts : session.Acts turn)
    (host : Host) (table : OptionTable) :
    (host.beside session.chain table).performAll turn.step.effects =
      (host.performAll turn.step.effects).beside session.chain table := by
  by_cases handled : turn.step.outcome = .handled
  · obtain ⟨effect, effects, handles⟩ := acts.handled handled
    rw [effects]
    cases handles with
    | listener => rfl
    | @flag found argument? flag fits flags =>
        obtain ⟨_, _, _, _, spelled⟩ := fits.meets
        apply Host.beside_write
        apply Chain.flags_of_mem_options spelled.mem_options
        rw [OptionDecl.Flags, flags]
        rfl
  · rw [acts.otherwise handled]
    rfl

/-- A notification of a listener of an extension, about an option of its table. -/
def Chain.Notifies (chain : Chain) (notification : Notification) : Prop :=
  ∃ link ∈ chain.extensions, link.listener? = some notification.listener ∧
    ∃ decl ∈ link.table.options, decl.code = notification.code

/-- A match that is delivered to a listener comes from a table with this listener. -/
theorem Session.DeliversTo.notifies {session : Session} {tokens : List String}
    {notification : Notification}
    (delivers : session.DeliversTo tokens (some notification.listener) notification.code
      notification.argument?) : session.chain.Notifies notification := by
  obtain ⟨found, link, told, listens, code⟩ := delivers
  rcases List.mem_cons.mp (List.mem_of_getElem? told.linked) with rfl | extension
  · exact nomatch listens
  · exact ⟨link, extension, listens, found.decl, told.declared, code⟩

namespace Live

variable {live : Live} {library : Link}

/-- The session with a further table in its chain, and the program with the cells of that table
at zero. -/
def beside (live : Live) (library : Link) : Live :=
  ⟨live.session.onChain (live.session.chain.append library),
    live.host.beside live.session.chain library.table⟩

/-- A session that a further table has no say in, as far as calls that parse show: none of its
options is unknown, and its tables settle each long name that it looks up. -/
structure Unaffected (live : Live) (library : Link) : Prop where
  known : ∀ count text,
    .ok (.outcome (.failed (.unknownOption text))) ∉ live.replies (List.replicate count .parse)
  settled : ∀ count name, (live.after (List.replicate count .parse)).session.LooksUp name →
    live.session.chain.Settles library.table name

theorem alive_answer_parse (alive : live.session.Alive original) :
    (live.answer .parse).2.session.Alive original := by
  obtain ⟨turn, turns, continues⟩ := alive.exists_turn
  rw [answer_parse alive.not_released turns]
  exact continues.alive

theorem chain_answer_parse (alive : live.session.Alive original) :
    (live.answer .parse).2.session.chain = live.session.chain := by
  obtain ⟨turn, turns, _⟩ := alive.exists_turn
  rw [answer_parse alive.not_released turns]
  exact alive.chain_of_turn turns

/-- A table that has no say in a session still has none after a call to parse. -/
theorem Unaffected.next (unaffected : live.Unaffected library)
    (alive : live.session.Alive original) : (live.answer .parse).2.Unaffected library where
  known count text member :=
    unaffected.known (count + 1) text (List.mem_cons_of_mem _ member)
  settled count name looks := by
    rw [chain_answer_parse alive]
    exact unaffected.settled (count + 1) name looks

/-- **A call that parses** does with a further table what it does without. -/
theorem Unaffected.answer_beside (unaffected : live.Unaffected library)
    (alive : live.session.Alive original) :
    (live.beside library).answer .parse =
      ((live.answer .parse).1, (live.answer .parse).2.beside library) := by
  obtain ⟨turn, turns, _⟩ := alive.exists_turn
  have answers := answer_parse alive.not_released turns
  have turnsBeside : (live.beside library).session.turn =
      .ok (turn.onChain (live.session.chain.append library)) := by
    apply alive.turn_onChain turns
    intro passed spelling rest meets step
    apply Spelling.agrees_append
    · intro text unknown
      apply unaffected.known 1 text
      change _ ∈ [(live.answer .parse).1]
      rw [answers, step, unknown]
      exact List.mem_singleton_self _
    · rintro body rfl
      exact unaffected.settled 0 _ ⟨passed, body, rest, meets, rfl⟩
  have active : (live.beside library).session.phase ≠ .released := alive.not_released
  rw [answer_parse active turnsBeside, answers]
  refine Prod.ext rfl (congrArg₂ Live.mk ?_ ?_)
  · change turn.session.onChain _ = turn.session.onChain (turn.session.chain.append library)
    rw [alive.chain_of_turn turns]
  · change _ = (live.host.performAll turn.step.effects).beside turn.session.chain library.table
    rw [alive.chain_of_turn turns]
    exact (alive.acts_of_turn turns).performAll_beside live.host library.table

/-- Calls that parse do with a further table what they do without. -/
theorem Unaffected.parses_beside (unaffected : live.Unaffected library)
    (alive : live.session.Alive original) (count : Nat) :
    (live.beside library).replies (List.replicate count .parse) =
        live.replies (List.replicate count .parse) ∧
      (live.beside library).after (List.replicate count .parse) =
        (live.after (List.replicate count .parse)).beside library := by
  induction count generalizing live with
  | zero => exact ⟨rfl, rfl⟩
  | succ count ih =>
      have first := unaffected.answer_beside alive
      obtain ⟨answers, last⟩ := ih (unaffected.next alive) (alive_answer_parse alive)
      rw [List.replicate_succ, replies, replies, after_cons, after_cons, first]
      exact ⟨congrArg _ answers, last⟩

/-- What calls that parse tell listeners. -/
theorem notified_after_parses (alive : live.session.Alive original) (count : Nat) :
    ∃ made, (live.after (List.replicate count .parse)).host.notified =
        live.host.notified ++ made ∧
      ∀ notification ∈ made, live.session.chain.Notifies notification := by
  induction count generalizing live with
  | zero => exact ⟨[], (List.append_nil _).symm, nofun⟩
  | succ count ih =>
      obtain ⟨first, delivering⟩ := delivering_of_parse alive
      obtain ⟨made, notified, told⟩ := ih (alive_answer_parse alive)
      refine ⟨first ++ made, ?_, ?_⟩
      · rw [List.replicate_succ, after_cons, notified, delivering.notified, List.append_assoc]
      · intro notification member
        rcases List.mem_append.mp member with now | later
        · exact (delivering.listeners notification now).notifies
        · rw [← chain_answer_parse alive]
          exact told notification later

/-- No call tells of an unknown option when the reading ahead has none. -/
theorem known_of_ahead (alive : live.session.Alive original) {reading : Reading}
    (ahead : live.session.Ahead reading)
    (known : ∀ step ∈ reading.steps, ∀ text, step.outcome ≠ .failed (.unknownOption text))
    (count : Nat) (text : String) :
    .ok (.outcome (.failed (.unknownOption text))) ∉
      live.replies (List.replicate count .parse) := by
  induction count generalizing live reading with
  | zero => nofun
  | succ count ih =>
      rw [List.replicate_succ, replies, List.mem_cons, not_or]
      cases alive with
      | scanning phase layout =>
          obtain ⟨turn, turns, progress⟩ := layout.exists_turn phase ahead
          rcases progress.ahead with ⟨passed, remaining, next, _, rfl⟩
          rw [answer_parse (Session.Alive.scanning phase layout).not_released turns]
          constructor
          · intro unknown
            have outcome := Reply.outcome.inj (Except.ok.inj unknown)
            exact known turn.step List.mem_cons_self text outcome.symm
          · apply ih progress.alive next
            exact fun step member => known step (List.mem_cons_of_mem _ member)
      | exhausted phase stored =>
          have answers := answer_parse (Session.Alive.exhausted phase stored).not_released
            (Session.turn_of_exhausted phase)
          rw [answers]
          refine ⟨nofun, ih ?_ (.nothing phase) nofun⟩
          exact .exhausted phase ⟨stored.one_le_written, stored.written_le, stored.path⟩

/-- **What a further table leaves as it is**: the answers to calls, the operands, what listeners
are told, and all cells but those that only the table has flags on. No listener is told of a
match on account of the table. -/
structure Undisturbed (live extended : Live) (library : Link) (calls : List Call) : Prop where
  replies : extended.replies calls = live.replies calls
  operands : (extended.after calls).session.operands = (live.after calls).session.operands
  notified : ∃ made, (live.after calls).host.notified = live.host.notified ++ made ∧
    (extended.after calls).host.notified = live.host.notified ++ made ∧
    ∀ notification ∈ made, live.session.chain.Notifies notification
  cells : ∀ cell, (extended.after calls).host.cells cell =
    if library.table.Flags cell ∧ ¬ live.session.chain.Flags cell then 0
    else (live.after calls).host.cells cell

/-- Such a table disturbs no calls to parse, however many there are. -/
theorem Unaffected.undisturbed (unaffected : live.Unaffected library)
    (alive : live.session.Alive original) (count : Nat) :
    live.Undisturbed (live.beside library) library (List.replicate count .parse) := by
  obtain ⟨answers, last⟩ := unaffected.parses_beside alive count
  obtain ⟨made, notified, told⟩ := notified_after_parses alive count
  refine ⟨answers, ?_, ⟨made, notified, ?_, told⟩, ?_⟩
  · rw [last]
    rfl
  · rw [last]
    exact notified
  · intro cell
    -- The flags of the chain are those of the chain at the end, which parsing keeps.
    rw [last, beside, chain_after_parses alive count]
    rfl

end Live

namespace Setup

variable {setup : Setup} {table : OptionTable} {libraries : List Link}

/-- A vector that a further table has no say in: nothing on it is unknown, and the tables that are
there settle the names of its long options. -/
theorem unaffected_opened {library : Link} {tokens : List String}
    (known : ∀ step ∈ (setup.reading table libraries tokens).steps, ∀ text,
      step.outcome ≠ .failed (.unknownOption text))
    (settled : ∀ token ∈ tokens, ∀ body, token.toList = '-' :: '-' :: body →
      Chain.Settles ⟨table, libraries⟩ library.table (String.ofList (Text.splitFirst '=' body).1))
    (host : Host) : (Live.mk (setup.opened table libraries tokens) host).Unaffected library := by
  have alive := (setup.session_alive table tokens).rechained ⟨table, libraries⟩
  constructor
  · exact @Live.known_of_ahead tokens ⟨_, host⟩ alive _
      (setup.opened_ahead table libraries tokens) known
  · intro count name looks
    have keeps : Call.free ∉ List.replicate count .parse := by simp [List.mem_replicate]
    have later := (@Live.after_continues tokens ⟨_, host⟩ alive _ keeps).alive
    obtain ⟨token, member, body, text, rfl⟩ := looks.exists_token later
    exact settled token member body text

/-- **A further table disturbs nothing.** When a valid table is added before anything is read, a
session that the table has no say in goes on as it would without the table, however often it is
called to parse. Lookups that succeed without the table keep their results, and an abbreviation
stands for its option as before, for several, or for an option of the table with that name. -/
theorem extension_disturbs_nothing (usable : setup.separator ≠ '\x00') (valid : table.Valid)
    (added : ∀ link ∈ libraries, link.table.Valid) {library : Link}
    (sound : library.table.Valid) (tokens : List String) (host : Host) :
    ∃ live extended, setup.launch table libraries tokens host = .ok live ∧
      live.answer (.extend library) = (.ok (.name live.session.programName), extended) ∧
      live.session.chain = ⟨table, libraries⟩ ∧ live.host.notified = host.notified ∧
      (live.Unaffected library →
        ∀ count, live.Undisturbed extended library (List.replicate count .parse)) ∧
      live.session.chain.KeepsLookups library := by
  let live : Live := ⟨setup.opened table libraries tokens,
    libraries.foldl (fun host link => host.resetFlags link.table) (host.resetFlags table)⟩
  have alive : live.session.Alive tokens :=
    (setup.session_alive table tokens).rechained ⟨table, libraries⟩
  have reset : ∀ cell, live.session.chain.Flags cell → live.host.cells cell = 0 := by
    intro cell flags
    exact (Host.cells_foldl_resetFlags host (Chain.links ⟨table, libraries⟩) cell).trans
      (if_pos flags)
  have answered : live.answer (.extend library) =
      (.ok (.name live.session.programName), live.beside library) := by
    rw [Live.answer_extend_of_valid alive.not_released sound, Host.resetFlags_eq_beside reset]
    rfl
  refine ⟨live, live.beside library, launch_of_valid usable valid added tokens host, answered, rfl,
    ?_, ?_, Chain.keepsLookups_append _ library⟩
  · exact Host.notified_foldl_resetFlags host (Chain.links ⟨table, libraries⟩)
  · intro unaffected count
    exact unaffected.undisturbed alive count

/-- An abbreviated name and a letter that a library has as well, and cells of both. -/
theorem extension_disturbs_nothing_shared :
    let library : Link := ⟨⟨[⟨"version", 'v'.val, .none, some ⟨1, 9⟩⟩]⟩, some 0⟩
    let calls : List Call := List.replicate 3 .parse
    ∃ live extended, ({} : Setup).launch ⟨[⟨"verbose", 'v'.val, .none, some ⟨0, 7⟩⟩]⟩ []
        ["prog", "--verb", "a", "-v"] ⟨fun _ => 5, []⟩ = .ok live ∧
      live.answer (.extend library) = (.ok (.name "prog"), extended) ∧
      live.Undisturbed extended library calls ∧
      (live.after calls).host.cells 1 = 5 ∧ (extended.after calls).host.cells 1 = 0 := by
  intro library calls
  let table : OptionTable := ⟨[⟨"verbose", 'v'.val, .none, some ⟨0, 7⟩⟩]⟩
  let tokens : List String := ["prog", "--verb", "a", "-v"]
  have known : ∀ step ∈ (({} : Setup).reading table [] tokens).steps, ∀ text,
      step.outcome ≠ .failed (.unknownOption text) := by
    have reads : ({} : Setup).reading table [] tokens =
        ⟨[⟨.handled, [.write 0 7]⟩, ⟨.handled, [.write 0 7]⟩, .ending], ["a"]⟩ := by cbv
    rw [reads]
    simp [Step.ending]
  have settled : ∀ token ∈ tokens, ∀ body, token.toList = '-' :: '-' :: body →
      Chain.Settles ⟨table, []⟩ library.table (String.ofList (Text.splitFirst '=' body).1) := by
    intro token member body text
    simp only [tokens, List.mem_cons, List.not_mem_nil, or_false] at member
    rcases member with rfl | rfl | rfl | rfl
    · simp at text
    · cases text
      right
      decide
    · simp at text
    · simp at text
  let live : Live := ⟨({} : Setup).opened table [] tokens, Host.resetFlags ⟨fun _ => 5, []⟩ table⟩
  have opens : ({} : Setup).launch table [] tokens ⟨fun _ => 5, []⟩ = .ok live :=
    launch_of_valid (by decide) (by decide) (by decide) tokens ⟨fun _ => 5, []⟩
  have cell : (live.after calls).host.cells 1 = 5 := by
    dsimp only [live, calls, tokens, table]
    cbv
  have name : live.session.programName = "prog" := by
    dsimp only [live, tokens, table]
    cbv
  obtain ⟨same, extended, launches, answered, _, _, undisturbed, _⟩ :=
    @extension_disturbs_nothing {} table [] (by decide) (by decide) (by decide) library (by decide)
      tokens ⟨fun _ => 5, []⟩
  cases opens.symm.trans launches
  rw [name] at answered
  have kept := undisturbed (unaffected_opened known settled _) 3
  refine ⟨live, extended, launches, answered, kept, cell, ?_⟩
  rw [kept.cells, if_pos (by decide)]

end Setup

end CommandLine
