import BlmLink.Lib.Trace
import BlmLink.Source.PjTcpWrite

/-!
# What reaches the socket

The octets on the wire are a prefix of what `sendData` was given as long as no
step drops any (`wire_prefix`). Steps that drop octets exist: a send that takes
only part of a buffer at once, a send that finds `write_op` occupied, and a
queued send that ends with an error. `sendData` treats all of them as done, so
the next buffer follows directly (`wire_skips_buffer`).
-/
namespace BlmLink.Guarantees.SendOrder

open BlmLink.Lib BlmLink.Source

/-- The system of all `sendData` calls and write events of one connection. -/
def Step : WriteSide → WriteSide.Event → WriteSide → Prop := Trace.ofOption WriteSide.next

/-- No octet is given up: a nonempty buffer is sent while nothing is queued, and
the socket takes all of it, or none of it and `write_op` is free; a queued send
with octets left does not end in an error. -/
def Lossless (c : WriteSide) : WriteSide.Event → Prop
  | .sendData data sock => data = [] ∨ (c.write_list = false ∧
      ((∃ n, sock = .sent n ∧ data.length ≤ n) ∨ (sock = .blocked ∧ c.write_op.op = false)))
  | .writable sock => c.pendingTail = [] ∨ ∃ n, sock = .sent n

/-- The condition is exact: it holds of a step if and only if the step drops nothing. -/
theorem lossless_iff (c : WriteSide) (e : WriteSide.Event) :
    Lossless c e ↔ c.dropped e = [] := by
  cases e with
  | sendData data sock =>
    cases queued : c.write_list with
    | true => simp [Lossless, WriteSide.dropped, queued]
    | false =>
      cases sock with
      | sent n =>
        simp only [Lossless, WriteSide.dropped, queued, Bool.false_eq_true, ↓reduceIte,
          List.drop_eq_nil_iff, SockSend.sent.injEq, exists_eq_left', reduceCtorEq, false_and,
          or_false, true_and]
        constructor
        · rintro (rfl | fits)
          · simp
          · exact fits
        · exact Or.inr
      | blocked => cases busy : c.write_op.op <;> simp [Lossless, WriteSide.dropped, queued, busy]
      | failed code => simp [Lossless, WriteSide.dropped, queued]
  | writable sock => cases sock <;> simp [Lossless, WriteSide.dropped]

/-- The wire and the queued octets are together what was submitted. -/
structure InOrder (c : WriteSide) : Prop where
  queuedOp : c.QueuedOp
  conserved : c.wire ++ c.pendingTail = c.calls.flatten

theorem inOrder_init (op : Bool) : InOrder (.init op) :=
  ⟨by simp [WriteSide.QueuedOp, WriteSide.init], rfl⟩

theorem inOrder_step {c c' : WriteSide} {e : WriteSide.Event} (before : InOrder c)
    (stepped : Trace.Guarded Step Lossless c e c') : InOrder c' := by
  obtain ⟨stepped, lossless⟩ := stepped
  obtain ⟨queuedOp, calls, conserved⟩ := WriteSide.next_conserves c c' e before.queuedOp stepped
  rw [(lossless_iff c e).mp lossless, List.append_nil, before.conserved, ← calls] at conserved
  exact ⟨queuedOp, conserved⟩

/-- In every run whose steps are all lossless, whatever `write_op` held at first,
the octets on the wire are a prefix of the buffers passed to `sendData` in call
order. Every prefix of a run is a run, so this is at every moment. -/
theorem wire_prefix (op : Bool) (events : List WriteSide.Event) (c : WriteSide)
    (run : Trace.Run (Trace.Guarded Step Lossless) (.init op) events c) :
    c.wire <+: c.calls.flatten := by
  have inOrder := run.invariant (inOrder_init op) inOrder_step
  exact ⟨c.pendingTail, inOrder.conserved⟩

/-- One buffer sent at once, one queued and sent in two parts. -/
theorem wire_prefix_queued :
    ∃ c, Trace.Run (Trace.Guarded Step Lossless) (.init false)
      [.sendData [1, 2] (.sent 2), .sendData [3, 4, 5] .blocked, .writable (.sent 1)] c ∧
      c.wire = [1, 2, 3] ∧ c.wire <+: c.calls.flatten := by
  have run : Trace.Run (Trace.Guarded Step Lossless) (.init false)
      [.sendData [1, 2] (.sent 2), .sendData [3, 4, 5] .blocked, .writable (.sent 1)]
      ⟨[(0, [1, 2]), (1, [3, 4, 5])], ⟨true, 1, [3, 4, 5], 1⟩, true, [[1, 2], [3, 4, 5]],
        [1, 2, 3]⟩ := by
    refine .cons ⟨rfl, .inr ⟨rfl, .inl ⟨2, rfl, by decide⟩⟩⟩ ?_
    refine .cons ⟨rfl, .inr ⟨rfl, .inr ⟨rfl, rfl⟩⟩⟩ ?_
    exact .cons ⟨rfl, .inr ⟨1, rfl⟩⟩ (.nil _)
  exact ⟨_, run, rfl, wire_prefix false _ _ run⟩

/-- A header that is queued, a body refused meanwhile, and the next header: the
body never reaches the socket and the next header takes its place. -/
theorem wire_skips_buffer :
    ¬ ∀ (op : Bool) (events : List WriteSide.Event) (c : WriteSide),
      Trace.Run Step (.init op) events c → c.wire <+: c.calls.flatten := by
  intro claim
  have run : Trace.Run Step (.init false)
      [.sendData [1, 2] .blocked, .sendData [3] .blocked, .writable (.sent 2),
        .sendData [4] (.sent 1)]
      ⟨[(1, [3]), (2, [4])], ⟨false, 0, [1, 2], 2⟩, false, [[1, 2], [3], [4]], [1, 2, 4]⟩ :=
    .cons rfl (.cons rfl (.cons rfl (.cons rfl (.nil _))))
  exact absurd (claim _ _ _ run) (by decide)

end BlmLink.Guarantees.SendOrder
