import CommandLine.Proofs.Session.Layout

/-!
# Taking all that is left as operands

A session that is aborted passes every unread token, whatever the token looks like and
whatever the order of operands is (`CommandLine.Session.Layout.exists_abort`).
-/

namespace CommandLine

namespace Session

variable {original : List String} {session : Session}

theorem compactRest_of_end (ended : session.tokens.drop session.next = []) :
    session.compactRest = .ok session := by
  have beyond : ¬ session.next < session.tokens.length :=
    Nat.not_lt_of_le (List.drop_eq_nil_iff.mp ended)
  rw [compactRest, if_neg beyond]

theorem compactRest_of_passes {token : String} {rest tokens : List String}
    (next : session.tokens.drop session.next = token :: rest)
    (passes : session.Passes token rest tokens) :
    session.compactRest = (session.compacted tokens).compactRest := by
  rw [compactRest, if_pos (next_lt_of_drop_eq next)]
  split <;> simp_all [passes.exchanged]

/-- Passing what is unread keeps its order behind the operands passed before, and moves
nothing but the tokens and the cursors. -/
theorem Cursors.exists_compactRest (cursors : session.Cursors original) :
    ∃ tokens next written,
      let compacted := { session with tokens := tokens, next := next, written := written }
      session.compactRest = .ok compacted ∧ compacted.Cursors original ∧
        compacted.operands = session.operands ++ session.tokens.drop session.next := by
  generalize unread : session.tokens.drop session.next = rest
  induction rest generalizing session with
  | nil =>
      refine ⟨session.tokens, session.next, session.written, compactRest_of_end unread, cursors, ?_⟩
      exact (List.append_nil _).symm
  | cons token rest ih =>
      obtain ⟨exchanged, passes⟩ := cursors.exists_passes unread
      obtain ⟨tokens, next, written, compacts, kept, operands⟩ :=
        ih (cursors.passing unread passes) passes.behind
      refine ⟨tokens, next, written, ?_, kept, ?_⟩
      · rw [compactRest_of_passes unread passes]
        exact compacts
      · rw [cursors.operands_passing unread passes, List.append_assoc] at operands
        exact operands

/-- **Aborting passes all that is unread**, and ends the reading. -/
theorem Layout.exists_abort (layout : session.Layout original)
    (scanning : session.phase = .scanning) :
    ∃ tokens next written,
      let aborted := { session with
        tokens := tokens, next := next, written := written, pending? := none
        phase := .exhausted }
      session.abort = .ok aborted ∧ aborted.Stored original ∧
        aborted.operands = session.operands ++ original.drop session.next := by
  obtain ⟨tokens, next, written, compacts, kept, operands⟩ := layout.exists_compactRest
  refine ⟨tokens.take written, next, written, ?_, kept.toStored.finish, ?_⟩
  · unfold abort
    split
    · next exhausted => exact (not_exhausted scanning exhausted).elim
    · rw [compacts]
      rfl
  · rw [← layout.unread, ← operands]
    exact kept.toStored.operands_finish

end Session

end CommandLine
