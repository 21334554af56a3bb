import Mathlib
import BlmLink.Guarantees.BodyRoundTrip

/-!
# Reassembly of the message stream

What a connection hands to `processMsg` is a function of the octets received,
not of how the network cut them (`chunking_irrelevant`). On the octets that a
run of `BlmClient::sendMsg` produced for payloads of at most 1024 octets, it is
the run's messages, each once and in order (`messages_delivered`).
-/
namespace BlmLink.Guarantees.StreamReassembly

open BlmLink.Lib BlmLink.Source

/-- Callbacks whose answer is a function of the messages delivered so far. -/
def record (answer : List Delivered → Int) (log : List Delivered) (d : Delivered) :
    List Delivered × Option Stop :=
  let log' := log ++ [d]
  (log', if answer log' = 0 then none else some (.returned (answer log')))

/-- A whole frame stands at the front of `recved`: a header with a length that
`onDataRead` accepts, and at least that many octets after it. -/
def HoldsFrame (rc4key recved : Bytes) : Prop :=
  ClientMsg.size ≤ recved.length ∧
    let len := (ClientMsg.ofBytes (rc4buf rc4key (recved.take ClientMsg.size))).len
    0 ≤ len.toInt ∧ len.toInt ≤ maxLen ∧ ClientMsg.size + len.toNat ≤ recved.length

theorem toNat_of_toInt_nonneg (v : CInt) (nonneg : 0 ≤ v.toInt) : (v.toNat : Int) = v.toInt := by
  rw [BitVec.toInt_eq_toNat_cond] at nonneg ⊢
  have bound := v.isLt
  split
  · rfl
  next large =>
    rw [if_neg large] at nonneg
    omega

/-- Asking for more input means that no frame is complete, and bounds the buffer. -/
theorem nextFrame_more (rc4key recved : Bytes) (asked : nextFrame rc4key recved = .more) :
    ¬ HoldsFrame rc4key recved ∧ recved.length < ClientMsg.size + maxLen := by
  unfold nextFrame at asked
  have positive : 0 < maxLen := by decide
  split at asked
  next short => exact ⟨fun held => absurd held.1 (by omega), by omega⟩
  next enough =>
    dsimp only at asked
    split at asked
    · cases asked
    next inRange =>
      split at asked
      next incomplete =>
        have value := toNat_of_toInt_nonneg _ (Int.not_lt.mp (fun negative => inRange (Or.inl negative)))
        refine ⟨fun held => absurd held.2.2.2 (by omega), ?_⟩
        omega
      · cases asked

/-- Any two ways of cutting one stream give the same `processMsg` calls and the
same return code. When every call returned 0 they also leave the same `recved`,
without a complete frame and shorter than a header and 16 MiB. -/
theorem chunking_irrelevant (rcv : Receiver) (answer : List Delivered → Int)
    (chunks chunks' : List Bytes) (same : chunks.flatten = chunks'.flatten) :
    (readChunks rcv (record answer) [] [] chunks).state =
      (readChunks rcv (record answer) [] [] chunks').state ∧
    (readChunks rcv (record answer) [] [] chunks).stop =
      (readChunks rcv (record answer) [] [] chunks').stop ∧
    ((readChunks rcv (record answer) [] [] chunks).stop = none →
      (readChunks rcv (record answer) [] [] chunks).left =
        (readChunks rcv (record answer) [] [] chunks').left ∧
      ¬ HoldsFrame rcv.rc4key (readChunks rcv (record answer) [] [] chunks).left ∧
      (readChunks rcv (record answer) [] [] chunks).left.length < ClientMsg.size + maxLen) := by
  have empty : (frameReader rcv.rc4key).next [] = .more := rfl
  have whole := Framer.feed_eq_drain (frameReader rcv.rc4key) (deliver rcv (record answer)) [] []
    chunks empty
  have whole' := Framer.feed_eq_drain (frameReader rcv.rc4key) (deliver rcv (record answer)) [] []
    chunks' empty
  rw [← same] at whole'
  simp only [readChunks_eq_feed]
  refine ⟨whole.1.trans whole'.1.symm, whole.2.1.trans whole'.2.1.symm, ?_⟩
  intro returnedZero
  have open' := whole.2.1.symm.trans returnedZero
  have left := whole.2.2 returnedZero
  refine ⟨left.trans (whole'.2.2 (whole'.2.1.trans open')).symm, ?_⟩
  rw [left]
  exact nextFrame_more _ _ (Framer.drain_left _ _ _ _ open')

/-- A stream of three octets cut in two ways; no header is complete yet. -/
theorem chunking_irrelevant_short :
    let rcv : Receiver := ⟨rc4_key.val, .signed, fun _ _ body => .ok body⟩
    (readChunks rcv (record fun _ => 0) [] [] [[1], [2, 3]]).left =
      (readChunks rcv (record fun _ => 0) [] [] [[1, 2, 3]]).left :=
  ((chunking_irrelevant ⟨rc4_key.val, .signed, fun _ _ body => .ok body⟩ (fun _ => 0)
    [[1], [2, 3]] [[1, 2, 3]] rfl).2.2 rfl).1

/-! ## The stream a sender produces -/

/-- The arguments of one `BlmClient::sendMsg` call. -/
structure Outgoing where
  mt : Int
  st : Int
  data : Bytes
  deriving DecidableEq, Repr

/-- A run of `sendMsg` calls on a connected client, from the counter `msgid` on. -/
def sendAll (libs : Libs) (keys : Keys) : CInt → List (CallCtx × Outgoing) → Except Fault (List Sent)
  | _, [] => .ok []
  | msgid, (ctx, m) :: rest => do
    let sent ← BlmClient.sendMsg libs (some keys) ctx msgid m.mt m.st m.data
    let more ← sendAll libs keys sent.msgid rest
    .ok (sent :: more)

/-- All octets handed to `sendData`, in order. -/
def wire (sents : List Sent) : Bytes := sents.flatMap fun sent => sent.bufs.flatten

/-- The header unmasks to what was masked, and the body is cut off where it ends. -/
theorem nextFrame_encoded (rc4key : Bytes) (msg : ClientMsg) (body rest : Bytes)
    (len : msg.len = BitVec.ofNat 32 body.length) (small : body.length ≤ maxLen) :
    nextFrame rc4key (rc4buf rc4key msg.toBytes ++ (body ++ rest)) = .frame (msg, body) rest := by
  have maxLenEq : maxLen = 16777216 := rfl
  have headLength : (rc4buf rc4key msg.toBytes).length = ClientMsg.size := by simp
  have lenNat : msg.len.toNat = body.length := by
    rw [len, BitVec.toNat_ofNat]
    exact Nat.mod_eq_of_lt (by omega)
  have lenInt : msg.len.toInt = body.length := by
    rw [BitVec.toInt_eq_toNat_of_lt (by rw [lenNat]; omega), lenNat]
  have header : ClientMsg.ofBytes (rc4buf rc4key
      ((rc4buf rc4key msg.toBytes ++ (body ++ rest)).take ClientMsg.size)) = msg := by
    rw [List.take_left' headLength, rc4buf_rc4buf, ClientMsg.ofBytes_toBytes]
  have bodyEq : ((rc4buf rc4key msg.toBytes ++ (body ++ rest)).drop ClientMsg.size).take
      body.length = body := by
    rw [List.drop_left' headLength, List.take_left]
  have restEq : (rc4buf rc4key msg.toBytes ++ (body ++ rest)).drop
      (ClientMsg.size + body.length) = rest := by
    rw [← List.drop_drop, List.drop_left' headLength, List.drop_left]
  simp only [nextFrame, header, lenInt, lenNat, bodyEq, restEq]
  rw [if_neg (by simp), if_neg (by omega), if_neg (by simp)]

/-- What `processMsg` must be told about a message, given what `sendMsg` returned. -/
def Matches (m : Outgoing) (sent : Sent) (d : Delivered) : Prop :=
  d.cont = m.data ∧ d.msgid = sent.ret ∧ d.mt % 256 = m.mt % 256 ∧ d.st % 256 = m.st % 256

section Delivery
variable (libs : Libs) (keys : Keys) (sign : CharSign) (rctx : CallCtx)

/-- A `ClientTcp` holding the keys of the sender. -/
def peer : Receiver :=
  { rc4key := keys.rc4.val, sign := sign, decode := ClientTcp.decodeMsg libs keys rctx }

/-- One message of at most 1024 octets: `sendMsg` succeeds, and its two buffers
read back as one frame of it, whatever follows. -/
theorem send_frame (ctx : CallCtx) (msgid : CInt) (m : Outgoing) (small : m.data.length ≤ 1024)
    (ordinary : ¬ (m.mt = 255 ∧ m.st = 255)) :
    ∃ sent msg body, BlmClient.sendMsg libs (some keys) ctx msgid m.mt m.st m.data = .ok sent ∧
      (∀ rest, nextFrame keys.rc4.val (sent.bufs.flatten ++ rest) = .frame (msg, body) rest) ∧
      msg.mt = intToChar m.mt ∧ msg.st = intToChar m.st ∧ msg.id.toInt = sent.ret ∧
      ∀ rctx, ClientTcp.decodeMsg libs keys rctx msg.compress msg.encrypt body = .ok m.data := by
  obtain ⟨encd, encrypted, _⟩ :=
    AES128Cipher.decrypt_encrypt libs.aes keys.aes ctx.amem ctx.amem m.data
  have encoded : ClientTcp.encodeBody libs keys ctx m.mt m.st 0 1 m.data = .ok encd := by
    change (if (1 : Int) = 0 ∨ (m.mt = 255 ∧ m.st = 255) then _ else _) = _
    rw [if_neg (by simp [ordinary])]
    exact encrypted
  have bounded : encd.length ≤ maxLen := by
    have maxLenEq : maxLen = 16777216 := rfl
    by_cases empty : m.data = []
    · rw [empty] at encrypted
      cases encrypted
      simp
    · rw [AES128Cipher.length_encrypt_nonempty libs.aes keys.aes ctx.amem m.data encd empty encrypted]
      omega
  let msg : ClientMsg :=
    { st := intToChar m.st, mt := intToChar m.mt, compress := intToChar 0, encrypt := intToChar 1
      id := msgid + 1, len := BitVec.ofNat 32 encd.length }
  refine ⟨⟨(msgid + 1).toInt, msgid + 1, [rc4buf keys.rc4.val msg.toBytes, encd]⟩, msg, encd, ?_,
    ?_, rfl, rfl, rfl, ?_⟩
  · rw [BlmClient.sendMsg, if_neg (by omega)]
    simp only [ClientTcp.sendMsg, encoded]
    rfl
  · intro rest
    have framed := nextFrame_encoded keys.rc4.val msg encd rest rfl bounded
    simpa using framed
  · exact BodyRoundTrip.decodeMsg_plain libs keys ctx m.mt m.st m.data encd 1 (by simp)
      ordinary encoded

/-- The frame of a message is delivered as one message. -/
theorem send_deliver (ctx : CallCtx) (msgid : CInt) (m : Outgoing) (small : m.data.length ≤ 1024)
    (ordinary : ¬ (m.mt = 255 ∧ m.st = 255)) :
    ∃ sent, BlmClient.sendMsg libs (some keys) ctx msgid m.mt m.st m.data = .ok sent ∧
      ∃ msg body, (∀ rest, nextFrame keys.rc4.val (sent.bufs.flatten ++ rest) =
          .frame (msg, body) rest) ∧
        ∀ log, ∃ d, deliver (peer libs keys sign rctx) (record fun _ => 0) log (msg, body) =
          (log ++ [d], none) ∧ Matches m sent d := by
  obtain ⟨sent, msg, body, ran, framed, mt, st, id, decoded⟩ :=
    send_frame libs keys ctx msgid m small ordinary
  refine ⟨sent, ran, msg, body, framed, ?_⟩
  intro log
  refine ⟨⟨charToInt sign msg.mt, charToInt sign msg.st, m.data, msg.id.toInt⟩, ?_, rfl, id, ?_, ?_⟩
  · simp only [deliver, peer, decoded rctx, record]
    simp
  · rw [mt]
    exact charToInt_intToChar _ _
  · rw [st]
    exact charToInt_intToChar _ _

/-- The frame loop over the octets of a whole run. The induction is on the
messages; each turn of the loop takes off the frame of the next one. -/
theorem drain_wire (msgs : List (CallCtx × Outgoing)) (msgid : CInt) (log : List Delivered)
    (small : ∀ m ∈ msgs, m.2.data.length ≤ 1024)
    (ordinary : ∀ m ∈ msgs, ¬ (m.2.mt = 255 ∧ m.2.st = 255)) :
    ∃ sents, sendAll libs keys msgid msgs = .ok sents ∧ sents.length = msgs.length ∧
      ∃ delivered, Framer.drain (frameReader keys.rc4.val)
          (deliver (peer libs keys sign rctx) (record fun _ => 0)) log (wire sents) =
          ⟨log ++ delivered, [], none⟩ ∧
        List.Forall₂ (fun m d => Matches m.1.2 m.2 d) (msgs.zip sents) delivered := by
  induction msgs generalizing msgid log with
  | nil =>
    refine ⟨[], rfl, rfl, [], ?_, .nil⟩
    rw [List.append_nil]
    rfl
  | cons m rest ih =>
    obtain ⟨ctx, m⟩ := m
    obtain ⟨sent, ran, msg, body, framed, delivers⟩ := send_deliver libs keys sign rctx ctx msgid m
      (small (ctx, m) (by simp)) (ordinary (ctx, m) (by simp))
    obtain ⟨d, delivered, matched⟩ := delivers log
    obtain ⟨sents, ranRest, sameLength, delivers', drained, matchedRest⟩ :=
      ih sent.msgid (log ++ [d]) (fun m member => small m (by simp [member]))
        (fun m member => ordinary m (by simp [member]))
    refine ⟨sent :: sents, ?_, by simp [sameLength], d :: delivers', ?_, .cons matched matchedRest⟩
    · simp only [sendAll, ran, bind, Except.bind, ranRest]
    · have turn : (frameReader keys.rc4.val).next (wire (sent :: sents)) =
          .frame (msg, body) (wire sents) := framed (wire sents)
      rw [Framer.drain_accept _ _ turn delivered, drained, List.append_assoc]
      rfl

/-- Every run of `BlmClient::sendMsg` with payloads of at most 1024 octets is
delivered to a peer with the same keys, once per message and in order, however
its octets are cut into reads; nothing is left over and every read returns 0. -/
theorem messages_delivered (msgid : CInt) (msgs : List (CallCtx × Outgoing))
    (small : ∀ m ∈ msgs, m.2.data.length ≤ 1024)
    (ordinary : ∀ m ∈ msgs, ¬ (m.2.mt = 255 ∧ m.2.st = 255)) :
    ∃ sents, sendAll libs keys msgid msgs = .ok sents ∧ sents.length = msgs.length ∧
      ∀ chunks : List Bytes, (∀ chunk ∈ chunks, 1 ≤ chunk.length ∧ chunk.length ≤ 1024) →
        chunks.flatten = wire sents →
        let run := readChunks (peer libs keys sign rctx) (record fun _ => 0) [] [] chunks
        List.Forall₂ (fun m d => Matches m.1.2 m.2 d) (msgs.zip sents) run.state ∧
          run.left = [] ∧ run.stop = none := by
  obtain ⟨sents, ran, sameLength, delivered, drained, matched⟩ :=
    drain_wire libs keys sign rctx msgs msgid [] small ordinary
  refine ⟨sents, ran, sameLength, ?_⟩
  intro chunks _ cut
  obtain ⟨state, stop, left⟩ := Framer.feed_eq_drain (frameReader keys.rc4.val)
    (deliver (peer libs keys sign rctx) (record fun _ => 0)) [] [] chunks rfl
  rw [List.nil_append, cut, drained] at state stop left
  rw [readChunks_eq_feed]
  refine ⟨?_, left stop, stop⟩
  change List.Forall₂ _ _ (Framer.feed (frameReader keys.rc4.val) _ [] [] chunks).state
  rw [state]
  exact matched

end Delivery

/-! The message `hi` of type (0, 3), under AES-128 with the key 00 01 .. 0f. -/

def hiPlain : Block :=
  ⟨[0x68, 0x69, 0x0e, 0x0e, 0x0e, 0x0e, 0x0e, 0x0e, 0x0e, 0x0e, 0x0e, 0x0e, 0x0e, 0x0e, 0x0e, 0x0e],
    rfl⟩

def hiCipher : Block :=
  ⟨[0xb7, 0x58, 0xf2, 0x83, 0x42, 0x7e, 0x7c, 0x0e, 0xc8, 0xeb, 0xdc, 0x45, 0x7e, 0xc3, 0x60, 0x9e],
    rfl⟩

def hiLibs : Libs where
  zlib := BodyRoundTrip.sampleZlib
  aes := { enc := fun _ => Equiv.swap hiPlain hiCipher
           dec := fun _ => (Equiv.swap hiPlain hiCipher).symm, dec_enc := by simp }

/-- Two calls, cut into single octets. -/
theorem messages_delivered_twice :
    ∃ sents, sendAll hiLibs BodyRoundTrip.sampleKeys 0
        [(BodyRoundTrip.sampleCtx, ⟨0, 3, [0x68, 0x69]⟩), (BodyRoundTrip.sampleCtx, ⟨0, 3, []⟩)] =
        .ok sents ∧
      let run := readChunks (peer hiLibs BodyRoundTrip.sampleKeys .signed BodyRoundTrip.sampleCtx)
        (record fun _ => 0) [] [] ((wire sents).map fun octet => [octet])
      run.left = [] ∧ run.stop = none := by
  obtain ⟨sents, ran, _, delivered⟩ := messages_delivered hiLibs BodyRoundTrip.sampleKeys .signed
    BodyRoundTrip.sampleCtx 0
    [(BodyRoundTrip.sampleCtx, ⟨0, 3, [0x68, 0x69]⟩), (BodyRoundTrip.sampleCtx, ⟨0, 3, []⟩)]
    (by simp) (by simp)
  refine ⟨sents, ran, (delivered ((wire sents).map fun octet => [octet]) (by simp) ?_).2⟩
  induction wire sents with
  | nil => rfl
  | cons octet rest ih => simpa using ih

end BlmLink.Guarantees.StreamReassembly
