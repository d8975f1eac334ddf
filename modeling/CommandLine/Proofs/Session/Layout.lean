import CommandLine.Proofs.Session.Step

/-!
# Where the cursors of a session stand

A session rearranges the vector that it reads. While it is being read, the path stands
at the front, the operands that have been passed stand behind it up to the cursor
`written`, and from the cursor `next` on the vector is as it was
(`CommandLine.Session.Layout`). Passing an operand keeps this because all that stands
between the cursors has been read (`CommandLine.Session.Layout.passing`), and so do
reading on (`CommandLine.Session.Layout.forward`) and going on to the next letter of a
cluster (`CommandLine.Session.Layout.past_of_letter`).
-/

namespace CommandLine

/-- An exchange with an earlier member puts a member behind an initial segment, and
changes nothing behind its old place. -/
theorem exists_exchange? {α : Type} {items : List α} {left right : Nat} {item : α}
    (ordered : left ≤ right) (stands : items[right]? = some item) :
    ∃ exchanged, exchange? items left right = some exchanged ∧ exchanged.Perm items ∧
      exchanged.take (left + 1) = items.take left ++ [item] ∧
      exchanged.drop (right + 1) = items.drop (right + 1) := by
  obtain ⟨within, rfl⟩ := List.getElem?_eq_some_iff.mp stands
  have before : left < items.length := Nat.lt_of_le_of_lt ordered within
  refine ⟨(items.set left items[right]).set right items[left], ?_,
    List.set_set_perm before within, ?_, ?_⟩
  · simp only [exchange?, List.getElem?_eq_getElem before, List.getElem?_eq_getElem within]
  · have place : left < ((items.set left items[right]).set right items[left]).length := by
      simpa only [List.length_set] using before
    rw [← List.take_append_getElem place, List.take_set_of_le ordered,
      List.take_set_of_le (Nat.le_refl left)]
    congr 2
    -- The two places are one when nothing has been read since the last operand.
    by_cases same : right = left
    · subst same
      simp only [List.getElem_set_self]
    · simp only [List.getElem_set_ne same, List.getElem_set_self]
  · rw [List.drop_set_of_lt (Nat.lt_succ_self right),
      List.drop_set_of_lt (Nat.lt_succ_of_le ordered)]

/-- The texts that stand in a vector at increasing positions, behind the path and before
a bound. -/
def Gathered (original : List String) (bound : Nat) (texts : List String) : Prop :=
  ∃ positions : List Nat, positions.Pairwise (· < ·) ∧
    (∀ position ∈ positions, 1 ≤ position ∧ position < bound) ∧
    texts.map some = positions.map fun position => original[position]?

/-- How many tokens are behind a step that has read its own to the end. -/
def Extent.size : Extent → Nat
  | .following => 2
  | _ => 1

namespace Gathered

variable {original texts : List String} {bound : Nat}

theorem nil (original : List String) (bound : Nat) : Gathered original bound [] :=
  ⟨[], .nil, by simp, rfl⟩

/-- What has been gathered in front of a position has been gathered in front of each later one. -/
theorem mono (gathered : Gathered original bound texts) {further : Nat}
    (more : bound ≤ further) : Gathered original further texts := by
  rcases gathered with ⟨positions, increasing, bounded, same⟩
  refine ⟨positions, increasing, ?_, same⟩
  intro position member
  obtain ⟨lower, upper⟩ := bounded position member
  exact ⟨lower, Nat.lt_of_lt_of_le upper more⟩

/-- The token at a position can be gathered behind all those before it. -/
theorem snoc (gathered : Gathered original bound texts) (behind : 1 ≤ bound) {text : String}
    (stands : original[bound]? = some text) :
    Gathered original (bound + 1) (texts ++ [text]) := by
  rcases gathered with ⟨positions, increasing, bounded, same⟩
  refine ⟨positions ++ [bound], ?_, ?_, ?_⟩
  · rw [List.pairwise_append]
    refine ⟨increasing, List.pairwise_singleton _ _, ?_⟩
    intro position member other last
    rw [List.mem_singleton.mp last]
    exact (bounded position member).2
  · intro position member
    rcases List.mem_append.mp member with earlier | last
    · obtain ⟨lower, upper⟩ := bounded position earlier
      exact ⟨lower, Nat.lt_succ_of_lt upper⟩
    · rw [List.mem_singleton.mp last]
      exact ⟨behind, Nat.lt_succ_self bound⟩
  · rw [List.map_append, List.map_append, same, List.map_singleton, List.map_singleton, stands]

end Gathered

namespace Session

variable {original : List String} {session : Session}

/-- What holds of a session until it is released: the path of the program stands in
front, and the operands that have been passed stand behind it. -/
structure Stored (original : List String) (session : Session) : Prop where
  one_le_written : 1 ≤ session.written
  written_le : session.written ≤ max 1 session.tokens.length
  path : session.tokens.head? = original.head?

/-- The cursors of a session that reads: what has been passed ends before what is next,
and from there on the vector is as it was. -/
structure Cursors (original : List String) (session : Session) : Prop
    extends Stored original session where
  written_le_next : session.written ≤ session.next
  next_le : session.next ≤ max 1 session.tokens.length
  length : session.tokens.length = original.length
  unread : session.tokens.drop session.next = original.drop session.next

/-- **The layout of a session that reads.** The operands passed so far are tokens of the
vector in their order. The vector is rearranged at most, or else operands are reported
and none is gathered. Inside a cluster, the pending offset is that of a letter. -/
structure Layout (original : List String) (session : Session) : Prop
    extends Cursors original session where
  gathered : Gathered original session.next session.operands
  rearranged : session.order ≠ .returnInOrder → session.tokens.Perm original
  unmoved : session.order = .returnInOrder → session.written = 1
  cluster : ∀ offset, session.pending? = some offset →
    2 ≤ offset ∧ ∃ c letters, session.AtLetter offset c letters

theorem not_exhausted (scanning : session.phase = .scanning) : session.phase ≠ .exhausted := by
  rw [scanning]
  simp

/-- The operands are the tokens between the path and the first cursor. -/
theorem Stored.operands_eq (stored : session.Stored original) :
    session.operands = (session.tokens.take session.written).drop 1 := by
  unfold operands
  by_cases within : session.written ≤ session.tokens.length
  · rw [if_pos ⟨stored.one_le_written, within⟩]
  · rw [if_neg fun both => within both.2]
    have first := stored.one_le_written
    have last := stored.written_le
    rw [List.drop_eq_nil_of_le]
    rw [List.length_take]
    omega

theorem Stored.intoOperands_eq (stored : session.Stored original) :
    session.intoOperands = session.operands := stored.operands_eq.symm

/-- The arguments are the path, if there is one, and the operands. -/
theorem Stored.arguments_eq (stored : session.Stored original) :
    session.arguments = original.head?.toList ++ session.operands := by
  have first := stored.one_le_written
  rw [stored.operands_eq, ← stored.path, arguments, ← List.take_eq_take_min]
  cases tokens : session.tokens with
  | nil => simp
  | cons path rest =>
      obtain ⟨written, place⟩ : ∃ written, session.written = written + 1 :=
        ⟨session.written - 1, by omega⟩
      rw [place]
      rfl

/-- Reading no more keeps the path and the operands where they are. -/
theorem Stored.finish (stored : session.Stored original) : session.finish.Stored original where
  one_le_written := stored.one_le_written
  written_le := by
    have bound := stored.written_le
    change session.written ≤ max 1 (session.tokens.take session.written).length
    rw [List.length_take]
    omega
  path := by
    have first := stored.one_le_written
    change (session.tokens.take session.written).head? = original.head?
    rw [List.head?_take, if_neg (by omega)]
    exact stored.path

/-- Reading no more changes no operand. -/
theorem Stored.operands_finish (stored : session.Stored original) :
    session.finish.operands = session.operands := by
  rw [stored.finish.operands_eq, stored.operands_eq]
  change ((session.tokens.take session.written).take session.written).drop 1 = _
  rw [List.take_take, Nat.min_self]

/-- The session after an operand has been passed, over the vector that the exchange has
left. -/
def compacted (session : Session) (tokens : List String) : Session :=
  { session with tokens := tokens, written := session.written + 1, next := session.next + 1 }

/-- What the exchange leaves when the next token is passed as an operand. -/
structure Passes (session : Session) (token : String) (rest tokens : List String) : Prop where
  exchanged : session.compactOperand = .ok (session.compacted tokens)
  perm : tokens.Perm session.tokens
  front : tokens.take (session.written + 1) = session.tokens.take session.written ++ [token]
  behind : tokens.drop (session.next + 1) = rest

theorem getElem?_of_drop_eq {α : Type} {items : List α} {position : Nat} {item : α}
    {rest : List α} (next : items.drop position = item :: rest) :
    items[position]? = some item := by
  rw [← List.head?_drop, next, List.head?_cons]

theorem drop_succ_of_drop_eq {α : Type} {items : List α} {position : Nat} {item : α}
    {rest : List α} (next : items.drop position = item :: rest) :
    items.drop (position + 1) = rest := by
  rw [← List.drop_drop, next, List.drop_one, List.tail_cons]

theorem next_lt_of_drop_eq {token : String} {rest : List String}
    (next : session.tokens.drop session.next = token :: rest) :
    session.next < session.tokens.length :=
  (List.getElem?_eq_some_iff.mp (getElem?_of_drop_eq next)).1

/-- An operand can always be passed: both cursors stand inside the vector. -/
theorem Cursors.exists_passes (cursors : session.Cursors original) {token : String}
    {rest : List String} (next : session.tokens.drop session.next = token :: rest) :
    ∃ tokens, session.Passes token rest tokens := by
  obtain ⟨tokens, exchange, perm, front, behind⟩ :=
    exists_exchange? cursors.written_le_next (getElem?_of_drop_eq next)
  refine ⟨tokens, ?_, perm, front, ?_⟩
  · unfold compactOperand
    rw [exchange]
    rfl
  · rw [behind, drop_succ_of_drop_eq next]

variable {token : String} {rest tokens : List String}

/-- Passing an operand keeps the cursors in place: one token more has been read and one more
gathered. -/
theorem Cursors.passing (cursors : session.Cursors original)
    (next : session.tokens.drop session.next = token :: rest)
    (passes : session.Passes token rest tokens) :
    (session.compacted tokens).Cursors original := by
  have within := next_lt_of_drop_eq next
  have same := passes.perm.length_eq
  have gap := cursors.written_le_next
  have first := cursors.one_le_written
  refine ⟨⟨Nat.le_add_left 1 _, ?_, ?_⟩, Nat.succ_le_succ gap, ?_, same.trans cursors.length, ?_⟩
  · change session.written + 1 ≤ max 1 tokens.length
    omega
  · change tokens.head? = original.head?
    have whole : tokens.head? = (tokens.take (session.written + 1)).head? := by
      rw [List.head?_take, if_neg (Nat.succ_ne_zero _)]
    have start : (session.tokens.take session.written).head? = session.tokens.head? := by
      rw [List.head?_take, if_neg (by omega)]
    rw [whole, passes.front, List.head?_append, start, ← cursors.path]
    cases path : session.tokens with
    | nil =>
        rw [path] at within
        exact (Nat.not_lt_zero _ within).elim
    | cons path tail => rfl
  · change session.next + 1 ≤ max 1 tokens.length
    omega
  · change tokens.drop (session.next + 1) = original.drop (session.next + 1)
    rw [passes.behind, drop_succ_of_drop_eq (cursors.unread.symm.trans next)]

/-- A passed operand stands behind those that were passed before. -/
theorem Cursors.operands_passing (cursors : session.Cursors original)
    (next : session.tokens.drop session.next = token :: rest)
    (passes : session.Passes token rest tokens) :
    (session.compacted tokens).operands = session.operands ++ [token] := by
  have within := next_lt_of_drop_eq next
  have gap := cursors.written_le_next
  have first := cursors.one_le_written
  rw [cursors.operands_eq, (cursors.passing next passes).operands_eq]
  change (tokens.take (session.written + 1)).drop 1 = _
  rw [passes.front, List.drop_append_of_le_length]
  rw [List.length_take]
  omega

/-- Passing an operand keeps the layout, where operands are gathered. -/
theorem Layout.passing (layout : session.Layout original)
    (gathers : session.order ≠ .returnInOrder) (between : session.pending? = none)
    (next : session.tokens.drop session.next = token :: rest)
    (passes : session.Passes token rest tokens) :
    (session.compacted tokens).Layout original := by
  refine ⟨layout.toCursors.passing next passes, ?_, ?_, ?_, ?_⟩
  · rw [layout.operands_passing next passes]
    have stands := getElem?_of_drop_eq (layout.unread.symm.trans next)
    exact layout.gathered.snoc (Nat.le_trans layout.one_le_written layout.written_le_next) stands
  · intro _
    exact passes.perm.trans (layout.rearranged gathers)
  · intro reports
    exact (gathers reports).elim
  · intro offset pending
    rw [show (session.compacted tokens).pending? = session.pending? from rfl, between] at pending
    exact nomatch pending

/-- A session over the same vector, with the same cursors and outside a cluster. -/
theorem Layout.congr (layout : session.Layout original) {other : Session}
    (tokens : other.tokens = session.tokens) (next : other.next = session.next)
    (written : other.written = session.written) (order : other.order = session.order)
    (between : other.pending? = none) : other.Layout original where
  one_le_written := written ▸ layout.one_le_written
  written_le := tokens ▸ written ▸ layout.written_le
  path := tokens ▸ layout.path
  written_le_next := written ▸ next ▸ layout.written_le_next
  next_le := tokens ▸ next ▸ layout.next_le
  length := tokens ▸ layout.length
  unread := tokens ▸ next ▸ layout.unread
  gathered := by
    have operands : other.operands = session.operands := by
      unfold operands
      rw [tokens, written]
    rw [next, operands]
    exact layout.gathered
  rearranged := order ▸ tokens ▸ layout.rearranged
  unmoved := order ▸ written ▸ layout.unmoved
  cluster offset pending := nomatch between ▸ pending

/-- Reading on over tokens that are there. -/
theorem Layout.forward (layout : session.Layout original)
    (between : session.pending? = none) {count : Nat}
    (within : session.next + count ≤ session.tokens.length) :
    ({ session with next := session.next + count } : Session).Layout original where
  one_le_written := layout.one_le_written
  written_le := layout.written_le
  path := layout.path
  written_le_next := Nat.le_add_right_of_le layout.written_le_next
  next_le := Nat.le_trans within (Nat.le_max_right _ _)
  length := layout.length
  unread := by
    change session.tokens.drop (session.next + count) = original.drop (session.next + count)
    rw [← List.drop_drop, layout.unread, List.drop_drop]
  gathered := layout.gathered.mono (Nat.le_add_right _ _)
  rearranged := layout.rearranged
  unmoved := layout.unmoved
  cluster offset pending := nomatch between ▸ pending

/-- Reading on behind the token that ends the options. -/
theorem Layout.behindTerminator (layout : session.Layout original)
    (between : session.pending? = none)
    (next : session.tokens.drop session.next = token :: rest) :
    ({ session with operandsOnly := true, next := session.next + 1 } : Session).Layout original :=
  (layout.forward between (show session.next + 1 ≤ _ from next_lt_of_drop_eq next)).congr
    rfl rfl rfl rfl between

/-- The layout as a turn finds it between tokens. -/
theorem Layout.cleared (layout : session.Layout original) (between : session.pending? = none) :
    ({ session with ambiguous := .empty } : Session).Layout original :=
  layout.congr rfl rfl rfl rfl between

/-- The layout as a turn finds it inside a cluster. -/
theorem Layout.resumed (layout : session.Layout original) :
    ({ session with ambiguous := .empty, pending? := none } : Session).Layout original :=
  layout.congr rfl rfl rfl rfl rfl

theorem AtLetter.resumed {offset : Nat} {c : Char} {letters : List Char}
    (letter : session.AtLetter offset c letters) :
    ({ session with ambiguous := .empty, pending? := none } : Session).AtLetter offset c letters :=
  ⟨letter.recognising, letter.started, letter.stands⟩

/-- The session after an operand has been passed, which ends the options when they have to
stand first. -/
def behindOperand (session : Session) (tokens : List String) : Session :=
  { session.compacted tokens with
    operandsOnly := session.operandsOnly || session.order = .requireOrder }

/-- Behind an operand options are still recognised, unless the order is strict. -/
theorem behindOperand_of_ne (anywhere : session.order ≠ .requireOrder) (tokens : List String) :
    session.behindOperand tokens = session.compacted tokens := by
  simp [behindOperand, compacted, anywhere]

/-- The layout is kept behind an operand, in both orders that gather. -/
theorem Layout.behindOperand (layout : session.Layout original)
    (gathers : session.order ≠ .returnInOrder) (between : session.pending? = none)
    (next : session.tokens.drop session.next = token :: rest)
    (passes : session.Passes token rest tokens) :
    (session.behindOperand tokens).Layout original :=
  (layout.passing gathers between next passes).congr rfl rfl rfl rfl between

/-- The operand that has been passed is the last one gathered. -/
theorem Cursors.operands_behindOperand (cursors : session.Cursors original)
    (next : session.tokens.drop session.next = token :: rest)
    (passes : session.Passes token rest tokens) :
    (session.behindOperand tokens).operands = session.operands ++ [token] :=
  cursors.operands_passing next passes

/-- Nothing has been gathered while the first cursor stands behind the path. -/
theorem operands_of_written_eq_one (alone : session.written = 1) : session.operands = [] := by
  unfold operands
  rw [alone]
  cases session.tokens <;> simp

/-- The session after the next token has been reported as an operand. -/
def taken (session : Session) : Session :=
  { session with
    tokens := session.tokens.set session.next ""
    next := session.next + 1 }

/-- An operand that is reported leaves the vector. -/
theorem takeOperand_eq (next : session.tokens.drop session.next = token :: rest) :
    session.takeOperand = .ok ⟨{ outcome := .operand token }, session.taken⟩ := by
  unfold takeOperand
  rw [getElem?_of_drop_eq next]
  rfl

/-- Taking an operand leaves the tokens behind it unread. -/
theorem drop_taken (next : session.tokens.drop session.next = token :: rest) :
    session.taken.tokens.drop session.taken.next = rest := by
  change (session.tokens.set session.next "").drop (session.next + 1) = rest
  rw [List.drop_set_of_lt (Nat.lt_add_one _)]
  exact drop_succ_of_drop_eq next

/-- No operand is gathered when operands are reported. -/
theorem Layout.operands_taken (layout : session.Layout original)
    (reports : session.order = .returnInOrder) : session.taken.operands = session.operands := by
  have alone := layout.unmoved reports
  rw [operands_of_written_eq_one alone]
  exact operands_of_written_eq_one alone

/-- An operand that is reported leaves the vector, and what is unread stays. -/
theorem Layout.taking (layout : session.Layout original)
    (reports : session.order = .returnInOrder) (between : session.pending? = none)
    (within : session.next < session.tokens.length) : session.taken.Layout original where
  one_le_written := layout.one_le_written
  written_le := by
    change session.written ≤ max 1 (session.tokens.set session.next "").length
    rw [List.length_set]
    exact layout.written_le
  path := by
    have behind : 0 < session.next := Nat.le_trans layout.one_le_written layout.written_le_next
    change (session.tokens.set session.next "").head? = original.head?
    rw [List.head?_eq_getElem?, List.getElem?_set_ne (Nat.ne_of_gt behind),
      ← List.head?_eq_getElem?]
    exact layout.path
  written_le_next := Nat.le_add_right_of_le layout.written_le_next
  next_le := by
    change session.next + 1 ≤ max 1 (session.tokens.set session.next "").length
    rw [List.length_set]
    omega
  length := (List.length_set ..).trans layout.length
  unread := by
    change (session.tokens.set session.next "").drop (session.next + 1) =
      original.drop (session.next + 1)
    rw [List.drop_set_of_lt (Nat.lt_add_one _), ← List.drop_drop, layout.unread,
      List.drop_drop]
  gathered := by
    rw [show session.taken.operands = [] from operands_of_written_eq_one (layout.unmoved reports)]
    exact .nil original _
  rearranged gathers := (gathers reports).elim
  unmoved := layout.unmoved
  cluster offset pending := nomatch between ▸ pending

/-- A step that reads to the end of its token moves the cursor by the tokens it has read. -/
theorem past_eq_of_token {extent : Extent} (after : Nat) {letters : List Char}
    (token : extent = .letter → letters = []) :
    session.past extent after letters =
      { session with next := session.next + extent.size } := by
  cases extent with
  | letter =>
      rw [token rfl]
      rfl
  | token => rfl
  | following => rfl

/-- The tokens behind a step are those that its reading leaves. -/
theorem drop_size (session : Session) (extent : Extent) :
    session.tokens.drop (session.next + extent.size) = extent.remaining session.followers := by
  cases extent with
  | letter => rfl
  | token => rfl
  | following =>
      change session.tokens.drop (session.next + 1 + 1) = session.followers.tail
      rw [← List.drop_one, followers, List.drop_drop]

/-- A step does not move the cursor out of the vector. -/
theorem next_size_le {extent : Extent} (within : session.next < session.tokens.length)
    (behind : extent = .following → session.followers ≠ []) :
    session.next + extent.size ≤ session.tokens.length := by
  cases extent with
  | letter => exact within
  | token => exact within
  | following =>
      have more : session.tokens.drop (session.next + 1) ≠ [] := behind rfl
      rw [ne_eq, List.drop_eq_nil_iff] at more
      exact Nat.lt_of_not_le more

theorem AtLetter.next_lt {offset : Nat} {c : Char} {letters : List Char}
    (letter : session.AtLetter offset c letters) : session.next < session.tokens.length := by
  rcases letter.stands with ⟨token, start, stands, _⟩
  exact (List.getElem?_eq_some_iff.mp stands).1

/-- Behind a letter that others follow stands the next letter. -/
theorem AtLetter.next_letter {offset : Nat} {c next : Char} {letters : List Char}
    (letter : session.AtLetter offset c (next :: letters)) :
    ({ session with pending? := some (offset + c.utf8Size) } : Session).AtLetter
      (offset + c.utf8Size) next letters := by
  rcases letter.stands with ⟨token, start, stands, kind, text, length⟩
  refine ⟨letter.recognising, Nat.le_add_right_of_le letter.started, token, start ++ [c],
    stands, kind, ?_, ?_⟩
  · rw [text, List.append_assoc, List.singleton_append]
  · rw [Text.byteLength_append, length]
    rfl

/-- A step that has read one of several letters leaves the session at the next letter. -/
theorem Layout.past_of_letter (layout : session.Layout original) {offset : Nat} {c next : Char}
    {letters : List Char} (letter : session.AtLetter offset c (next :: letters)) :
    (session.past .letter (offset + c.utf8Size) (next :: letters)).Layout original where
  one_le_written := layout.one_le_written
  written_le := layout.written_le
  path := layout.path
  written_le_next := layout.written_le_next
  next_le := layout.next_le
  length := layout.length
  unread := layout.unread
  gathered := layout.gathered
  rearranged := layout.rearranged
  unmoved := layout.unmoved
  cluster offset' pending := by
    have positive := Char.utf8Size_pos c
    have started := letter.started
    cases Option.some.inj pending
    exact ⟨by omega, next, letters, letter.next_letter⟩

end Session

end CommandLine
