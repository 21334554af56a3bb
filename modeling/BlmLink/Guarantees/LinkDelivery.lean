import Mathlib
import BlmLink.Guarantees.AesRounds
import BlmLink.Guarantees.SendOrder
import BlmLink.Guarantees.StreamReassembly

/-!
# A connection from end to end

`BlmClient::sendMsg` over `PjTcp::sendData` and the I/O queue, a socket that takes what it likes,
and a `ClientTcp` with the same keys that reads what has arrived in pieces of any size, all in any
order. As long as no step gives up octets, the peer has been handed at every moment the messages
whose octets it has read, each once and in the order of sending (`delivered_in_order`).
-/
namespace BlmLink.Guarantees.LinkDelivery

open BlmLink.Lib BlmLink.Source SendOrder StreamReassembly

/-- A connection and the peer at its other end. -/
structure Link where
  msgid : CInt
  /-- The messages sent, with what `sendMsg` made of them. -/
  sent : List (Outgoing × Sent)
  writer : WriteSide
  /-- How much of the wire the peer has read. -/
  taken : Nat
  log : List Delivered
  recved : Bytes
  stop : Option Stop

inductive Link.Event where
  /-- A `sendMsg` call, with what the socket does at each `sendData`. -/
  | send (ctx : CallCtx) (m : Outgoing) (socks : List SockSend)
  | writable (sock : SockSend)
  /-- A read completion of the peer. -/
  | read (n : Nat)

namespace Link

def init (op : Bool) (msgid : CInt) : Link := ⟨msgid, [], .init op, 0, [], [], none⟩

/-- The `sendData` calls of a `sendMsg`. -/
def sendBufs (c : WriteSide) : List Bytes → List SockSend → Option WriteSide
  | [], _ => some c
  | _ :: _, [] => none
  | buf :: bufs, sock :: socks => sendBufs (c.sendData buf sock) bufs socks

variable (libs : Libs) (keys : Keys) (sign : CharSign) (rctx : CallCtx)

def next (l : Link) : Event → Option Link
  | .send ctx m socks =>
    match BlmClient.sendMsg libs (some keys) ctx l.msgid m.mt m.st m.data with
    | .error _ => none
    | .ok sent =>
      (sendBufs l.writer sent.bufs socks).map fun writer =>
        { l with msgid := sent.msgid, sent := l.sent ++ [(m, sent)], writer := writer }
  | .writable sock => (l.writer.dispatchWriteEvent sock).map fun writer => { l with writer := writer }
  | .read n =>
    if l.stop = none ∧ 1 ≤ n ∧ n ≤ 1024 ∧ l.taken + n ≤ l.writer.wire.length then
      let outcome := onDataRead (peer libs keys sign rctx) (record fun _ => 0) l.log l.recved
        ((l.writer.wire.drop l.taken).take n)
      some { l with taken := l.taken + n, log := outcome.state, recved := outcome.left,
                    stop := outcome.stop }
    else none

/-- None of the `sendData` calls of a `sendMsg` gives up octets. -/
def LosslessBufs (c : WriteSide) : List Bytes → List SockSend → Prop
  | buf :: bufs, sock :: socks =>
    Lossless c (.sendData buf sock) ∧ LosslessBufs (c.sendData buf sock) bufs socks
  | _, _ => True

/-- The steps that give up nothing, with messages that are not compressed. -/
def Meets (l : Link) : Event → Prop
  | .send ctx m socks => m.data.length ≤ 1024 ∧ ¬ (m.mt = 255 ∧ m.st = 255) ∧
      ∀ sent, BlmClient.sendMsg libs (some keys) ctx l.msgid m.mt m.st m.data = .ok sent →
        LosslessBufs l.writer sent.bufs socks
  | .writable sock => Lossless l.writer (.writable sock)
  | .read _ => True

end Link

section writing

theorem sendData_grows (c : WriteSide) (data : Bytes) (sock : SockSend) :
    c.wire <+: (c.sendData data sock).wire := by
  unfold WriteSide.sendData WriteSide.pjIoqueueSend WriteSide.schedule
  dsimp only
  split
  · split <;> exact List.prefix_refl _
  · cases sock with
    | sent n => exact List.prefix_append _ _
    | blocked => dsimp only; split <;> exact List.prefix_refl _
    | failed code => exact List.prefix_refl _

theorem dispatch_grows {c c' : WriteSide} {sock : SockSend}
    (dispatched : c.dispatchWriteEvent sock = some c') : c.wire <+: c'.wire := by
  unfold WriteSide.dispatchWriteEvent at dispatched
  split at dispatched
  next =>
    cases sock with
    | sent n =>
      dsimp only at dispatched
      split at dispatched
      · rw [(WriteSide.complete_eq dispatched).1]
        exact List.prefix_append _ _
      · cases dispatched
        exact List.prefix_append _ _
    | blocked =>
      rw [(WriteSide.complete_eq dispatched).1]
    | failed code =>
      rw [(WriteSide.complete_eq dispatched).1]
  next =>
    cases dispatched
    exact List.prefix_refl _

/-- The `sendData` calls of a message, one after another. -/
theorem sendBufs_inOrder {c c' : WriteSide} {bufs : List Bytes} {socks : List SockSend}
    (before : InOrder c) (ran : Link.sendBufs c bufs socks = some c')
    (lossless : Link.LosslessBufs c bufs socks) :
    InOrder c' ∧ c'.calls = c.calls ++ bufs ∧ c.wire <+: c'.wire := by
  induction bufs generalizing c socks with
  | nil =>
    cases ran
    exact ⟨before, (List.append_nil _).symm, List.prefix_refl _⟩
  | cons buf bufs ih =>
    cases socks with
    | nil => cases ran
    | cons sock socks =>
      obtain ⟨first, rest⟩ := lossless
      have stepped : Trace.Guarded Step Lossless c (.sendData buf sock) (c.sendData buf sock) :=
        ⟨rfl, first⟩
      obtain ⟨inOrder, calls, grown⟩ := ih (inOrder_step before stepped) ran rest
      refine ⟨inOrder, ?_, (sendData_grows c buf sock).trans grown⟩
      rw [calls, WriteSide.sendData_calls, List.append_assoc, List.singleton_append]

end writing

section reading

variable (libs : Libs) (keys : Keys) (sign : CharSign) (rctx : CallCtx)

/-- The peer's loop over a buffer. -/
def readAll (log : List Delivered) (buf : Bytes) : Framer.Outcome Byte Stop (List Delivered) :=
  Framer.drain (frameReader keys.rc4.val) (deliver (peer libs keys sign rctx) (record fun _ => 0))
    log buf

/-- The buffers of a message are one frame, whatever follows, and the peer makes the message of
it. -/
def Framed (p : Outgoing × Sent) : Prop :=
  ∃ msg body, (∀ rest, nextFrame keys.rc4.val (p.2.bufs.flatten ++ rest) = .frame (msg, body) rest) ∧
    ∀ log, ∃ d, deliver (peer libs keys sign rctx) (record fun _ => 0) log (msg, body) =
      (log ++ [d], none) ∧ Matches p.1 p.2 d

/-- What messages have been sent is read back before what follows. -/
theorem readAll_framed (sent : List (Outgoing × Sent))
    (framed : ∀ p ∈ sent, Framed libs keys sign rctx p) (log : List Delivered) (rest : Bytes) :
    ∃ delivered, List.Forall₂ (fun p d => Matches p.1 p.2 d) sent delivered ∧
      readAll libs keys sign rctx log (wire (sent.map Prod.snd) ++ rest) =
        readAll libs keys sign rctx (log ++ delivered) rest := by
  induction sent generalizing log with
  | nil => exact ⟨[], .nil, by rw [List.append_nil]; rfl⟩
  | cons p sent ih =>
    obtain ⟨msg, body, frame, delivers⟩ := framed p List.mem_cons_self
    obtain ⟨d, accepted, matched⟩ := delivers log
    obtain ⟨delivered, all, drained⟩ := ih (fun p member => framed p (List.mem_cons_of_mem _ member))
      (log ++ [d])
    refine ⟨d :: delivered, .cons matched all, ?_⟩
    have turn : (frameReader keys.rc4.val).next (wire ((p :: sent).map Prod.snd) ++ rest) =
        .frame (msg, body) (wire (sent.map Prod.snd) ++ rest) := by
      have here := frame (wire (sent.map Prod.snd) ++ rest)
      rw [← List.append_assoc] at here
      exact here
    rw [readAll, Framer.drain_accept _ _ turn accepted]
    exact drained.trans (by rw [List.append_assoc, List.singleton_append])

/-- The log only grows. -/
theorem readAll_grows (log : List Delivered) (buf : Bytes) :
    log <+: (readAll libs keys sign rctx log buf).state := by
  have ended : Framer.Ends (fun s => log <+: s) (fun s _ => log <+: s)
      (readAll libs keys sign rctx log buf).state (readAll libs keys sign rctx log buf).stop := by
    refine Framer.drain_invariant _ _ ?_ (fun before _ => before) log buf (List.prefix_refl _)
    intro s frame before
    unfold deliver
    cases (peer libs keys sign rctx).decode frame.1.compress frame.1.encrypt frame.2 with
    | error reason => exact before
    | ok cont => exact before.trans (List.prefix_append _ _)
  cases stopped : (readAll libs keys sign rctx log buf).stop with
  | none =>
    rw [stopped] at ended
    exact ended
  | some reason =>
    rw [stopped] at ended
    exact ended

/-- A first part of what was sent: the loop is not cut short, and has handed on a first part of
the messages, with those whose octets are all there. -/
theorem readAll_part (sent : List (Outgoing × Sent))
    (framed : ∀ p ∈ sent, Framed libs keys sign rctx p) {part : Bytes}
    (first : part <+: wire (sent.map Prod.snd)) :
    let run := readAll libs keys sign rctx [] part
    run.stop = none ∧
      List.Forall₂ (fun p d => Matches p.1 p.2 d) (sent.take run.state.length) run.state ∧
      ∀ j ≤ sent.length, (wire ((sent.take j).map Prod.snd)).length ≤ part.length →
        j ≤ run.state.length := by
  obtain ⟨rest, whole⟩ := first
  obtain ⟨delivered, all, drained⟩ := readAll_framed libs keys sign rctx sent framed [] []
  have ended : readAll libs keys sign rctx [] (part ++ rest) = ⟨delivered, [], none⟩ := by
    rw [whole, ← List.append_nil (wire _), drained]
    rfl
  obtain ⟨goesOn, cutShort⟩ := Framer.drain_append (frameReader keys.rc4.val)
    (deliver (peer libs keys sign rctx) (record fun _ => 0)) [] part rest
  have open' : (readAll libs keys sign rctx [] part).stop = none := by
    cases stopped : (readAll libs keys sign rctx [] part).stop with
    | none => rfl
    | some reason =>
      have still := (cutShort reason stopped).2
      rw [show Framer.drain _ _ _ _ = _ from ended] at still
      cases still
  have prefixed : (readAll libs keys sign rctx [] part).state <+: delivered := by
    have grown := readAll_grows libs keys sign rctx (readAll libs keys sign rctx [] part).state
      ((readAll libs keys sign rctx [] part).left ++ rest)
    have after : readAll libs keys sign rctx [] (part ++ rest) =
        readAll libs keys sign rctx (readAll libs keys sign rctx [] part).state
          ((readAll libs keys sign rctx [] part).left ++ rest) := goesOn open'
    rw [← after, ended] at grown
    exact grown
  refine ⟨open', ?_, ?_⟩
  · have taken := List.forall₂_take (readAll libs keys sign rctx [] part).state.length all
    rwa [← List.prefix_iff_eq_take.mp prefixed] at taken
  · intro j inside enough
    have split : wire (sent.map Prod.snd) =
        wire ((sent.take j).map Prod.snd) ++ wire ((sent.drop j).map Prod.snd) := by
      rw [wire, wire, wire, ← List.flatMap_append, ← List.map_append, List.take_append_drop]
    obtain ⟨more, rfl⟩ := List.prefix_of_prefix_length_le ⟨_, split.symm⟩ ⟨rest, whole⟩ enough
    obtain ⟨ahead, some', behind⟩ := readAll_framed libs keys sign rctx (sent.take j)
      (fun p member => framed p (List.mem_of_mem_take member)) [] more
    have counted := some'.length_eq
    rw [List.length_take, Nat.min_eq_left inside] at counted
    rw [behind, counted]
    exact (readAll_grows libs keys sign rctx _ more).length_le

end reading

section runs

variable (libs : Libs) (keys : Keys) (sign : CharSign) (rctx : CallCtx)

structure Inv (l : Link) : Prop where
  inOrder : InOrder l.writer
  calls : l.writer.calls.flatten = wire (l.sent.map Prod.snd)
  framed : ∀ p ∈ l.sent, Framed libs keys sign rctx p
  taken : l.taken ≤ l.writer.wire.length
  reading : readAll libs keys sign rctx [] (l.writer.wire.take l.taken) = ⟨l.log, l.recved, l.stop⟩

theorem inv_init (op : Bool) (msgid : CInt) : Inv libs keys sign rctx (.init op msgid) :=
  ⟨inOrder_init op, rfl, nofun, Nat.le_refl _, rfl⟩

variable {libs keys sign rctx}

/-- What the peer has read is a first part of what was sent. -/
theorem Inv.read_prefix {l : Link} (inv : Inv libs keys sign rctx l) :
    l.writer.wire.take l.taken <+: wire (l.sent.map Prod.snd) := by
  rw [← inv.calls, ← inv.inOrder.conserved]
  exact (List.take_prefix _ _).trans (List.prefix_append _ _)

/-- More on the wire does not change what has been read from it. -/
theorem take_of_grown {w w' : Bytes} (grown : w <+: w') {n : Nat} (inside : n ≤ w.length) :
    n ≤ w'.length ∧ w'.take n = w.take n := by
  obtain ⟨more, rfl⟩ := grown
  exact ⟨by rw [List.length_append]; omega, List.take_append_of_le_length inside⟩

theorem inv_send {l l' : Link} {ctx : CallCtx} {m : Outgoing} {socks : List SockSend}
    (inv : Inv libs keys sign rctx l) (stepped : l.next libs keys sign rctx (.send ctx m socks) = some l')
    (meets : l.Meets libs keys (.send ctx m socks)) : Inv libs keys sign rctx l' := by
  obtain ⟨small, ordinary, lossless⟩ := meets
  obtain ⟨sent, ran, framed⟩ := send_deliver libs keys sign rctx ctx l.msgid m small ordinary
  rw [Link.next, ran] at stepped
  obtain ⟨writer, wrote, rfl⟩ := Option.map_eq_some_iff.mp stepped
  obtain ⟨inOrder, calls, grown⟩ := sendBufs_inOrder inv.inOrder wrote (lossless sent ran)
  obtain ⟨inside, same⟩ := take_of_grown grown inv.taken
  refine ⟨inOrder, ?_, ?_, inside, by rw [same]; exact inv.reading⟩
  · rw [calls, List.flatten_append, inv.calls]
    simp [wire]
  · intro p member
    rcases List.mem_append.mp member with earlier | here
    · exact inv.framed p earlier
    · rw [List.mem_singleton.mp here]
      exact framed

theorem inv_writable {l l' : Link} {sock : SockSend} (inv : Inv libs keys sign rctx l)
    (stepped : l.next libs keys sign rctx (.writable sock) = some l')
    (meets : l.Meets libs keys (.writable sock)) : Inv libs keys sign rctx l' := by
  obtain ⟨writer, wrote, rfl⟩ := Option.map_eq_some_iff.mp stepped
  have written : Trace.Guarded Step Lossless l.writer (.writable sock) writer := ⟨wrote, meets⟩
  obtain ⟨_, calls, _⟩ := WriteSide.dispatchWriteEvent_conserves _ _ _ inv.inOrder.queuedOp wrote
  obtain ⟨inside, same⟩ := take_of_grown (dispatch_grows wrote) inv.taken
  exact ⟨inOrder_step inv.inOrder written, calls ▸ inv.calls, inv.framed, inside,
    by rw [same]; exact inv.reading⟩

theorem inv_read {l l' : Link} {n : Nat} (inv : Inv libs keys sign rctx l)
    (stepped : l.next libs keys sign rctx (.read n) = some l') : Inv libs keys sign rctx l' := by
  rw [Link.next] at stepped
  split at stepped
  next ready =>
    cases stepped
    obtain ⟨open', _, _, inside⟩ := ready
    refine ⟨inv.inOrder, inv.calls, inv.framed, inside, ?_⟩
    have goesOn := (Framer.drain_append (frameReader keys.rc4.val)
      (deliver (peer libs keys sign rctx) (record fun _ => 0)) [] (l.writer.wire.take l.taken)
      ((l.writer.wire.drop l.taken).take n)).1
    have before : Framer.drain (frameReader keys.rc4.val)
        (deliver (peer libs keys sign rctx) (record fun _ => 0)) [] (l.writer.wire.take l.taken) =
        ⟨l.log, l.recved, l.stop⟩ := inv.reading
    rw [before] at goesOn
    rw [readAll, List.take_add, goesOn open']
    rfl
  next => cases stepped

theorem inv_next {l l' : Link} {e : Link.Event} (inv : Inv libs keys sign rctx l)
    (stepped : Trace.Guarded (Trace.ofOption (Link.next libs keys sign rctx)) (Link.Meets libs keys)
      l e l') : Inv libs keys sign rctx l' := by
  obtain ⟨stepped, meets⟩ := stepped
  cases e with
  | send ctx m socks => exact inv_send inv stepped meets
  | writable sock => exact inv_writable inv stepped meets
  | read n => exact inv_read inv stepped

variable (libs keys sign rctx)

/-- In every interleaving of sends, write events and reads without loss: no read has failed, the
peer has been handed the first of the messages sent, each once and in order, those among them
whose octets it has read, and all of them when it has read everything and nothing is queued. -/
theorem delivered_in_order (op : Bool) (msgid : CInt) (events : List Link.Event) (l : Link)
    (run : Trace.Run (Trace.Guarded (Trace.ofOption (Link.next libs keys sign rctx))
      (Link.Meets libs keys)) (.init op msgid) events l) :
    l.stop = none ∧
      List.Forall₂ (fun p d => Matches p.1 p.2 d) (l.sent.take l.log.length) l.log ∧
      (∀ j ≤ l.sent.length, (wire ((l.sent.take j).map Prod.snd)).length ≤ l.taken →
        j ≤ l.log.length) ∧
      (l.writer.pendingTail = [] → l.taken = l.writer.wire.length →
        l.log.length = l.sent.length) := by
  have inv := run.invariant (inv_init libs keys sign rctx op msgid) inv_next
  obtain ⟨open', matched, complete⟩ := readAll_part libs keys sign rctx l.sent inv.framed
    inv.read_prefix
  rw [inv.reading] at open' matched complete
  rw [List.length_take, Nat.min_eq_left inv.taken] at complete
  refine ⟨open', matched, complete, fun idle read => ?_⟩
  have conserved := inv.inOrder.conserved
  rw [idle, List.append_nil, inv.calls] at conserved
  have all := complete l.sent.length le_rfl (by rw [List.take_length, ← conserved, read])
  have some' := matched.length_eq
  rw [List.length_take] at some'
  dsimp only at all some'
  omega

def linkLibs : Libs := { zlib := BodyRoundTrip.sampleZlib, aes := AesRounds.aes128 }

def linkKeys : Keys := BodyRoundTrip.sampleKeys

/-- The masked header of an empty message of type (0, 3). -/
def emptyHeader : Bytes := rc4buf linkKeys.rc4.val (ClientMsg.toBytes ⟨3, 0, 0, 1, 1, 0⟩)

/-- The connection after the message was sent and `taken` octets of it were read. -/
def emptySent (taken : Nat) : Link where
  msgid := 1
  sent := [(⟨0, 3, []⟩, ⟨1, 1, [emptyHeader, []]⟩)]
  writer := ((WriteSide.init false).sendData emptyHeader (.sent 12)).sendData [] (.sent 0)
  taken := taken
  log := []
  recved := emptyHeader.take taken
  stop := none

/-- An empty message, read in two pieces. -/
theorem delivered_in_order_pieces : ∃ l, Trace.Run (Trace.Guarded (Trace.ofOption
      (Link.next linkLibs linkKeys .signed BodyRoundTrip.sampleCtx)) (Link.Meets linkLibs linkKeys))
      (.init false 0)
      [.send BodyRoundTrip.sampleCtx ⟨0, 3, []⟩ [.sent 12, .sent 0], .read 5, .read 7] l ∧
    l.log.length = 1 := by
  have sent : BlmClient.sendMsg linkLibs (some linkKeys) BodyRoundTrip.sampleCtx 0 0 3 [] =
      .ok ⟨1, 1, [emptyHeader, []]⟩ := rfl
  have size : emptyHeader.length = 12 := by decide +kernel
  have lossless : Link.LosslessBufs (.init false) [emptyHeader, []] [.sent 12, .sent 0] :=
    ⟨.inr ⟨rfl, .inl ⟨12, rfl, size.le⟩⟩, .inl rfl, trivial⟩
  have wired : (emptySent 5).writer.wire.length = 12 := by decide +kernel
  have first : Link.next linkLibs linkKeys .signed BodyRoundTrip.sampleCtx (.init false 0)
      (.send BodyRoundTrip.sampleCtx ⟨0, 3, []⟩ [.sent 12, .sent 0]) = some (emptySent 0) := rfl
  have second : Link.next linkLibs linkKeys .signed BodyRoundTrip.sampleCtx (emptySent 0) (.read 5) =
      some (emptySent 5) := by
    rw [Link.next, if_pos ⟨rfl, by decide, by decide, le_trans (by decide) wired.ge⟩]
    rfl
  obtain ⟨l, third, taken, writer, same⟩ : ∃ l, Link.next linkLibs linkKeys .signed
      BodyRoundTrip.sampleCtx (emptySent 5) (.read 7) = some l ∧ l.taken = 12 ∧
      l.writer = (emptySent 5).writer ∧ l.sent = (emptySent 5).sent := by
    rw [Link.next, if_pos ⟨rfl, by decide, by decide, wired.ge⟩]
    exact ⟨_, rfl, rfl, rfl, rfl⟩
  have run : Trace.Run (Trace.Guarded (Trace.ofOption
      (Link.next linkLibs linkKeys .signed BodyRoundTrip.sampleCtx)) (Link.Meets linkLibs linkKeys))
      (.init false 0)
      [.send BodyRoundTrip.sampleCtx ⟨0, 3, []⟩ [.sent 12, .sent 0], .read 5, .read 7] l := by
    refine .cons ⟨first, by decide, by decide, ?_⟩ (.cons ⟨second, trivial⟩
      (.cons ⟨third, trivial⟩ (.nil _)))
    intro answered ran
    have same : answered = ⟨1, 1, [emptyHeader, []]⟩ := Except.ok.inj (ran.symm.trans sent)
    rw [same]
    exact lossless
  obtain ⟨_, _, _, all⟩ := delivered_in_order linkLibs linkKeys .signed BodyRoundTrip.sampleCtx
    false 0 _ l run
  rw [writer, taken, same] at all
  exact ⟨l, run, all rfl wired.symm⟩

end runs

end BlmLink.Guarantees.LinkDelivery
