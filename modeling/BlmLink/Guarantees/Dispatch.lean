import BlmLink.Guarantees.Ownership
import BlmLink.Guarantees.StreamReassembly

/-!
# Delivery to the callbacks of a message type

The type of a message is an `int` for the sender, a plain `char` on the wire and
an `int` again as the key of `msgMap`. Where plain `char` is signed, a type from
128 on comes back as itself less 256: the callbacks registered for it are not
found, and a subtype from 128 on reaches them as a negative number. What is
called is what is registered for the value received (`read_calls`), and that is
what the sender meant exactly under the condition of `delivered_iff`.
-/
namespace BlmLink.Guarantees.Dispatch

open BlmLink.Lib BlmLink.Source Ownership StreamReassembly

/-- `msgMap` after a sequence of `addMsgCallback` calls. -/
def registry (regs : List (Int × Callback)) : List (Int × List Callback) :=
  regs.foldl (fun map reg => BlmClient.addToMsgMap reg.1 reg.2 map) []

/-- The callbacks registered for `mt`, latest first. -/
def registered (regs : List (Int × Callback)) (mt : Int) : List Callback :=
  ((regs.filter fun reg => reg.1 = mt).map Prod.snd).reverse

/-- Of the callbacks in turn, those up to the first that answers nonzero. -/
def answering : List Callback → List Reply → List Callback
  | [], _ => []
  | _ :: _, [] => []
  | cb :: cbs, reply :: replies => if reply.ret ≠ 0 then [cb] else cb :: answering cbs replies

/-- The calls of message callbacks in a log, with their arguments. -/
def messageCalls (log : List Entry) : List (Callback × Delivered) :=
  log.filterMap fun
    | .called cb (some msg) => some (cb, msg)
    | _ => none

/-- What the receiver's `int` holds for an `int` sent as a `char`. -/
def received (sign : CharSign) (v : Int) : Int := charToInt sign (intToChar v)

section registry

theorem lookup_cons_if (key key' : Int) (cbs : List Callback) (map : List (Int × List Callback)) :
    ((key', cbs) :: map).lookup key = if key = key' then some cbs else map.lookup key := by
  by_cases same : key = key'
  · simp [same]
  · rw [List.lookup_cons, beq_eq_false_iff_ne.mpr same, if_neg same]

theorem lookup_addToMsgMap (mt key : Int) (cb : Callback) (map : List (Int × List Callback)) :
    (BlmClient.addToMsgMap mt cb map).lookup key =
      if key = mt then some (cb :: (map.lookup mt).getD []) else map.lookup key := by
  induction map with
  | nil =>
    unfold BlmClient.addToMsgMap
    rw [lookup_cons_if]
    rfl
  | cons entry rest ih =>
    obtain ⟨mt', cbs⟩ := entry
    unfold BlmClient.addToMsgMap
    by_cases here : mt' = mt
    · subst here
      simp only [if_true, lookup_cons_if, Option.getD_some]
      split <;> rfl
    · have other : ¬ mt = mt' := fun equal => here equal.symm
      simp only [if_neg here, lookup_cons_if, ih, if_neg other]
      by_cases same : key = mt
      · rw [if_pos same, if_pos same, if_neg (same ▸ other)]
      · simp only [if_neg same]

theorem length_registered_le (regs : List (Int × Callback)) (mt : Int) :
    (registered regs mt).length ≤ regs.length := by
  rw [registered, List.length_reverse, List.length_map]
  exact List.length_filter_le _ _

theorem registered_snoc (regs : List (Int × Callback)) (reg : Int × Callback) (mt : Int) :
    registered (regs ++ [reg]) mt =
      if mt = reg.1 then reg.2 :: registered regs mt else registered regs mt := by
  unfold registered
  by_cases same : mt = reg.1
  · simp [same]
  · have other : ¬ reg.1 = mt := fun equal => same equal.symm
    simp [same, other]

/-- `find` in the map gives the callbacks registered, or nothing when there are none. -/
theorem lookup_registry (regs : List (Int × Callback)) (mt : Int) :
    (registry regs).lookup mt =
      if registered regs mt = [] then none else some (registered regs mt) := by
  induction regs using List.reverseRecOn generalizing mt with
  | nil => rfl
  | append_singleton regs reg ih =>
    have folded : registry (regs ++ [reg]) = BlmClient.addToMsgMap reg.1 reg.2 (registry regs) := by
      simp [registry]
    rw [folded, lookup_addToMsgMap, registered_snoc]
    by_cases same : mt = reg.1
    · subst same
      rw [if_pos rfl, if_pos rfl, ih]
      by_cases none : registered regs reg.1 = []
      · simp [none]
      · simp [none]
    · rw [if_neg same, if_neg same, ih]

end registry

section char

theorem received_unsigned {v : Int} (low : 0 ≤ v) (high : v ≤ 255) : received .unsigned v = v := by
  simp only [received, charToInt, intToChar, BitVec.toNat_ofInt]
  omega

theorem received_signed {v : Int} (low : 0 ≤ v) (high : v ≤ 255) :
    received .signed v = if v ≤ 127 then v else v - 256 := by
  simp only [received, charToInt, intToChar, BitVec.toInt_ofInt, Int.bmod_def]
  split <;> split <;> omega

end char

section calls

variable {env : Env} {c : BlmClient}

/-- A call of the client calls no message callback. -/
theorem call_messageCalls (c : BlmClient) (call : Call) :
    Safe Unasked (c.call env call) fun c' =>
      messageCalls c'.log = messageCalls c.log ∧ c'.msgMap = c.msgMap := by
  cases call with
  | connectFastest ips port =>
    show Safe Unasked (c.connectFastest env ips port) _
    unfold BlmClient.connectFastest
    refine .bind (P := fun c' => messageCalls c'.log = messageCalls c.log ∧
      c'.msgMap = c.msgMap) ?_ ?_
    · have noted : messageCalls (c.note .connectFastest).log = messageCalls c.log := by
        simp [BlmClient.note, messageCalls]
      split
      · apply (disconnect_returns _).imp
        rintro _ ⟨objs, rfl, -⟩
        exact ⟨noted, rfl⟩
      · exact .ok ⟨noted, rfl⟩
    · intro c' same
      apply Safe.ok
      generalize splitString ips 0x20 = pieces
      induction pieces generalizing c' with
      | nil => exact same
      | cons ip pieces ih => exact ih same
  | disconnect =>
    apply (disconnect_returns c).imp
    rintro _ ⟨objs, rfl, -⟩
    exact ⟨rfl, rfl⟩
  | sendMsg ctx mt st data =>
    show Safe Unasked (c.send env ctx mt st data) _
    unfold BlmClient.send
    split
    · exact .ok ⟨rfl, rfl⟩
    · refine .bind (P := fun _ => True) ⟨fun _ => trivial, fun _ => id⟩ ?_
      intro conn _
      refine .bind (P := fun _ => True) ⟨fun _ => trivial, fun _ => id⟩ ?_
      intro sent _
      exact .ok ⟨rfl, rfl⟩

/-- The loop of `processMsg` calls the callbacks in turn, up to the first nonzero answer. -/
theorem callList_messageCalls (msg : Delivered) (cbs : List Callback) (c : BlmClient)
    (replies : List Reply) :
    Safe Unasked (BlmClient.callList env (some msg) cbs c replies) fun ran =>
      messageCalls ran.client.log =
        messageCalls c.log ++ (answering cbs replies).map fun cb => (cb, msg) := by
  induction cbs generalizing c replies with
  | nil => exact .ok (by simp [answering])
  | cons cb cbs ih =>
    cases replies with
    | nil => exact .error id
    | cons reply replies =>
      unfold BlmClient.callList
      refine .bind (P := fun c' => messageCalls c'.log = messageCalls c.log ++ [(cb, msg)]) ?_ ?_
      · refine Safe.foldlM ?_ ?_
        · intro c₁ call _ before
          exact (call_messageCalls c₁ call).imp fun same => same.1.trans before
        · simp [BlmClient.note, messageCalls]
      · intro c' before
        by_cases nonzero : reply.ret ≠ 0
        · rw [if_pos nonzero]
          refine .ok ?_
          simp [answering, nonzero, before]
        · rw [if_neg nonzero]
          apply (ih c' replies).imp
          intro ran after
          simp [after, before, answering, nonzero]

/-- Callbacks that only answer: the loop ends, and the connections are as before. -/
theorem callList_answers (msg : Option Delivered) (cbs : List Callback) (c : BlmClient)
    (replies : List Reply) (idle : ∀ reply ∈ replies, reply.calls = [])
    (enough : cbs.length ≤ replies.length) :
    ∃ ran, BlmClient.callList env msg cbs c replies = .ok ran ∧ ran.client.objs = c.objs := by
  induction cbs generalizing c replies with
  | nil => exact ⟨_, rfl, rfl⟩
  | cons cb cbs ih =>
    cases replies with
    | nil => simp at enough
    | cons reply replies =>
      have none : reply.calls = [] := idle reply List.mem_cons_self
      unfold BlmClient.callList
      rw [none]
      by_cases nonzero : reply.ret ≠ 0
      · refine ⟨⟨reply.ret, c.note (.called cb msg), replies⟩, ?_, rfl⟩
        simp [nonzero, bind, Except.bind, pure, Except.pure]
      · obtain ⟨ran, looped, same⟩ := ih (c.note (.called cb msg)) replies
          (fun reply member => idle reply (List.mem_cons_of_mem _ member))
          (Nat.le_of_succ_le_succ enough)
        refine ⟨ran, ?_, same⟩
        simpa [nonzero, bind, Except.bind, pure, Except.pure] using looped

end calls

section read

variable {env : Env} {c : BlmClient} {p : Nat} {conn : Conn} {regs : List (Int × Callback)}

theorem processMsg_registry (registers : c.msgMap = registry regs) (msg : Delivered)
    (replies : List Reply) :
    c.processMsg env msg replies =
      BlmClient.callList env (some msg) (registered regs msg.mt) c replies := by
  unfold BlmClient.processMsg
  rw [registers, lookup_registry]
  by_cases none : registered regs msg.mt = []
  · rw [if_pos none, none]
    rfl
  · rw [if_neg none]

/-- The loop over a buffer that holds one frame: one `processMsg` call. -/
theorem onDataRead_frame {σ : Type} {rcv : Receiver} {process : σ → Delivered → σ × Option Stop}
    {s s' : σ} {stop : Option Stop} {recved data : Bytes} {msg : ClientMsg} {body cont : Bytes}
    (framed : nextFrame rcv.rc4key (recved ++ data) = .frame (msg, body) [])
    (decoded : rcv.decode msg.compress msg.encrypt body = .ok cont)
    (processed : process s ⟨charToInt rcv.sign msg.mt, charToInt rcv.sign msg.st, cont,
      msg.id.toInt⟩ = (s', stop)) :
    onDataRead rcv process s recved data = ⟨s', [], stop⟩ := by
  have delivered : deliver rcv process s (msg, body) = (s', stop) := by
    simp only [deliver, decoded, processed]
  have answer : (frameReader rcv.rc4key).next (recved ++ data) = .frame (msg, body) [] := framed
  have empty : (frameReader rcv.rc4key).next [] = .more := rfl
  rw [onDataRead, Framer.drain_unfold]
  simp only [answer, delivered]
  cases stop with
  | none =>
    show Framer.drain (frameReader rcv.rc4key) (deliver rcv process) s' [] = _
    rw [Framer.drain_unfold]
    simp only [empty]
  | some reason => rfl

/-- `onDataRead` of one whole frame returns or fails as its `processMsg` call does. -/
theorem tcpOnDataRead_frame (live : c.objs.live.lookup p = some conn)
    {data : Bytes} {msg : ClientMsg} {body cont : Bytes} {rctx : CallCtx} {replies : List Reply}
    {s' : BlmClient × List Reply} {stop : Option Stop}
    (framed : nextFrame conn.keys.rc4.val (conn.recved ++ data) = .frame (msg, body) [])
    (decoded : ClientTcp.decodeMsg env.libs conn.keys rctx msg.compress msg.encrypt body = .ok cont)
    (processed : BlmClient.process env p (c, replies) ⟨charToInt env.sign msg.mt,
      charToInt env.sign msg.st, cont, msg.id.toInt⟩ = (s', stop)) :
    (∃ reason, stop = some (.fault reason) ∧
      c.tcpOnDataRead env p data rctx replies = .error reason) ∨
    ((∀ reason, stop ≠ some (.fault reason)) ∧
      ∃ ran, c.tcpOnDataRead env p data rctx replies = .ok ran ∧ ran.client.log = s'.1.log) := by
  have looped : onDataRead (BlmClient.receiver env conn rctx) (BlmClient.process env p) (c, replies)
      conn.recved data = ⟨s', [], stop⟩ := onDataRead_frame framed decoded processed
  have found : c.deref p = .ok conn := by
    unfold BlmClient.deref
    rw [live]
  have stored : (storeLeft s'.1 p []).log = s'.1.log := by
    unfold storeLeft
    split <;> rfl
  unfold BlmClient.tcpOnDataRead
  rw [found]
  simp only [bind, Except.bind, looped]
  cases stop with
  | none => exact .inr ⟨by simp, _, rfl, stored⟩
  | some stop =>
    cases stop with
    | fault reason => exact .inl ⟨reason, rfl, rfl⟩
    | returned eno => exact .inr ⟨by simp, _, rfl, stored⟩

theorem process_calls {msg : Delivered} {s s' : BlmClient × List Reply} {stop : Option Stop}
    {Q : List Entry → Prop}
    (calls : Safe Unasked (s.1.processMsg env msg s.2) fun ran => Q ran.client.log)
    (processed : BlmClient.process env p s msg = (s', stop))
    (sound : ∀ reason, stop ≠ some (.fault reason)) : Q s'.1.log := by
  unfold BlmClient.process at processed
  cases result : s.1.processMsg env msg s.2 with
  | error reason =>
    simp only [result] at processed
    cases processed
    exact absurd rfl (sound reason)
  | ok ran =>
    have after := calls.returns result
    simp only [result] at processed
    split at processed
    · cases processed
      exact after
    · split at processed <;> cases processed <;> exact after

/-- What a read of one whole frame calls: the callbacks registered for the value
received, up to the first nonzero answer. With callbacks that only answer it returns. -/
theorem read_calls (live : c.objs.live.lookup p = some conn) (registers : c.msgMap = registry regs)
    {data : Bytes} {msg : ClientMsg} {body cont : Bytes} {rctx : CallCtx}
    (framed : nextFrame conn.keys.rc4.val (conn.recved ++ data) = .frame (msg, body) [])
    (decoded : ClientTcp.decodeMsg env.libs conn.keys rctx msg.compress msg.encrypt body = .ok cont)
    (replies : List Reply) {arrived : Delivered}
    (read : arrived = ⟨charToInt env.sign msg.mt, charToInt env.sign msg.st, cont, msg.id.toInt⟩) :
    Safe Unasked (c.tcpOnDataRead env p data rctx replies) (fun ran =>
      messageCalls ran.client.log = messageCalls c.log ++
        (answering (registered regs arrived.mt) replies).map fun cb => (cb, arrived)) ∧
    ((∀ reply ∈ replies, reply.calls = []) →
      (registered regs arrived.mt).length ≤ replies.length →
      ∃ ran, c.tcpOnDataRead env p data rctx replies = .ok ran) := by
  have calls := @callList_messageCalls env arrived (registered regs arrived.mt) c replies
  have answers := @callList_answers env (some arrived) (registered regs arrived.mt) c replies
  rw [← processMsg_registry registers] at calls answers
  cases processed : BlmClient.process env p (c, replies) arrived with
  | mk s' stop =>
    have outcome := tcpOnDataRead_frame live framed decoded (read ▸ processed)
    constructor
    · refine ⟨?_, fun _ => id⟩
      intro ran returned
      rcases outcome with ⟨reason, -, failed⟩ | ⟨sound, ran', returned', log⟩
      · rw [failed] at returned
        cases returned
      · rw [returned'] at returned
        cases returned
        rw [log]
        exact process_calls (Q := fun log => messageCalls log = _) calls processed sound
    · intro idle enough
      obtain ⟨inner, result, same⟩ := answers idle enough
      have found : inner.client.deref p = .ok conn := by
        unfold BlmClient.deref
        rw [same, live]
      rcases outcome with ⟨reason, stopped, -⟩ | ⟨-, ran, returned, -⟩
      · simp only [BlmClient.process, result, found] at processed
        subst stopped
        split at processed <;> cases processed
      · exact ⟨ran, returned⟩

end read

theorem answering_eq_nil {cbs : List Callback} {replies : List Reply}
    (enough : cbs.length ≤ replies.length) : answering cbs replies = [] ↔ cbs = [] := by
  cases cbs with
  | nil => simp [answering]
  | cons cb cbs =>
    cases replies with
    | nil => simp at enough
    | cons reply replies =>
      unfold answering
      split <;> simp

/-- Two lists of calls with different arguments are equal only when both are empty. -/
theorem map_arguments_eq {cbs cbs' : List Callback} {msg msg' : Delivered} (differ : msg ≠ msg') :
    (cbs.map fun cb => (cb, msg)) = (cbs'.map fun cb => (cb, msg')) ↔ cbs = [] ∧ cbs' = [] := by
  cases cbs with
  | nil =>
    constructor
    · intro same
      exact ⟨rfl, by simpa using same.symm⟩
    · rintro ⟨-, rfl⟩
      rfl
  | cons cb cbs =>
    cases cbs' with
    | nil => simp
    | cons cb' cbs' => simp [differ]

/-- What the client does with the frame of a message of type `(mt, st)`: it calls the
callbacks registered for `mt` with the type, subtype and payload sent, latest registered
first and up to the first nonzero answer. -/
def DeliveredAs (env : Env) (regs : List (Int × Callback)) (c : BlmClient) (p : Nat) (data : Bytes)
    (msg : Delivered) : Prop :=
  ∀ rctx replies ran, c.tcpOnDataRead env p data rctx replies = .ok ran →
    messageCalls ran.client.log =
      messageCalls c.log ++ (answering (registered regs msg.mt) replies).map fun cb => (cb, msg)

/-- The frame is delivered as `msg` exactly if it reads as `msg`, or nothing is registered
for either type. -/
theorem deliveredAs_frame {env : Env} {regs : List (Int × Callback)} {c : BlmClient} {p : Nat}
    {conn : Conn} (live : c.objs.live.lookup p = some conn) (registers : c.msgMap = registry regs)
    {data : Bytes} {header : ClientMsg} {body : Bytes} {msg arrived : Delivered}
    (framed : nextFrame conn.keys.rc4.val (conn.recved ++ data) = .frame (header, body) [])
    (decodes : ∀ rctx, ClientTcp.decodeMsg env.libs conn.keys rctx header.compress header.encrypt
      body = .ok arrived.cont)
    (read : arrived = ⟨charToInt env.sign header.mt, charToInt env.sign header.st, arrived.cont,
      header.id.toInt⟩) :
    DeliveredAs env regs c p data msg ↔
      arrived = msg ∨ (registered regs msg.mt = [] ∧ registered regs arrived.mt = []) := by
  have reads := fun rctx replies => read_calls live registers framed (decodes rctx) replies read
  by_cases same : arrived = msg
  · subst same
    simp only [true_or, iff_true]
    intro rctx replies ran returned
    exact (reads rctx replies).1.returns returned
  · simp only [same, false_or]
    constructor
    · intro delivered
      let replies : List Reply := List.replicate regs.length ⟨[], 0⟩
      have enough : ∀ mt, (registered regs mt).length ≤ replies.length := by
        intro mt
        rw [List.length_replicate]
        exact length_registered_le regs mt
      obtain ⟨ran, returned⟩ := (reads ⟨0, fun _ => 0, fun _ => 0⟩ replies).2
        (fun reply member => by rw [List.eq_of_mem_replicate member]) (enough _)
      have meant := delivered _ replies ran returned
      rw [(reads _ replies).1.returns returned, List.append_cancel_left_eq,
        map_arguments_eq same, answering_eq_nil (enough _), answering_eq_nil (enough _)] at meant
      exact ⟨meant.2, meant.1⟩
    · rintro ⟨meant, found⟩ rctx replies ran returned
      have called := (reads rctx replies).1.returns returned
      rw [found] at called
      rw [called, meant]
      simp [answering]

/-- A message of at most 1024 octets to a client with any registrations: `sendMsg` makes a
frame, reading it returns with any callbacks that only answer, and it is delivered as it was
sent exactly if plain `char` is unsigned, or type and subtype are at most 127, or no callback
is registered for the type nor for what a signed `char` makes of it. -/
theorem delivered_iff (env : Env) (regs : List (Int × Callback)) (mt st : Int)
    (mtRange : 0 ≤ mt ∧ mt ≤ 255) (stRange : 0 ≤ st ∧ st ≤ 255) (ordinary : ¬ (mt = 255 ∧ st = 255))
    (payload : Bytes) (small : payload.length ≤ 1024) (ctx : CallCtx) (msgid : CInt) (c : BlmClient)
    (registers : c.msgMap = registry regs) (p : Nat) (conn : Conn)
    (live : c.objs.live.lookup p = some conn) :
    ∃ sent, BlmClient.sendMsg env.libs (some conn.keys) ctx msgid mt st payload = .ok sent ∧
      ∀ data, conn.recved ++ data = sent.bufs.flatten →
        (∀ rctx replies, (∀ reply ∈ replies, reply.calls = []) → regs.length ≤ replies.length →
          ∃ ran, c.tcpOnDataRead env p data rctx replies = .ok ran) ∧
        (DeliveredAs env regs c p data ⟨mt, st, payload, sent.ret⟩ ↔
          env.sign = .unsigned ∨ (mt ≤ 127 ∧ st ≤ 127) ∨
            (registered regs mt = [] ∧
              registered regs (if mt ≤ 127 then mt else mt - 256) = [])) := by
  obtain ⟨sent, msg, body, ran, framed, mtEq, stEq, id, decodes⟩ :=
    send_frame env.libs conn.keys ctx msgid ⟨mt, st, payload⟩ small ordinary
  refine ⟨sent, ran, ?_⟩
  intro data whole
  have frame : nextFrame conn.keys.rc4.val (conn.recved ++ data) = .frame (msg, body) [] := by
    rw [whole, ← framed [], List.append_nil]
  let arrived : Delivered := ⟨received env.sign mt, received env.sign st, payload, sent.ret⟩
  have read : arrived = ⟨charToInt env.sign msg.mt, charToInt env.sign msg.st, payload,
      msg.id.toInt⟩ := by
    rw [mtEq, stEq, id]
    rfl
  constructor
  · intro rctx replies idle enough
    exact (read_calls live registers frame (decodes rctx) replies read).2 idle
      ((length_registered_le regs _).trans enough)
  · rw [deliveredAs_frame live registers frame decodes read]
    cases sign : env.sign with
    | unsigned =>
      simp [arrived, sign, received_unsigned mtRange.1 mtRange.2,
        received_unsigned stRange.1 stRange.2]
    | signed =>
      have same : arrived = ⟨mt, st, payload, sent.ret⟩ ↔ mt ≤ 127 ∧ st ≤ 127 := by
        simp only [arrived, sign, received_signed mtRange.1 mtRange.2,
          received_signed stRange.1 stRange.2, Delivered.mk.injEq, and_true]
        omega
      have mtArrived : arrived.mt = if mt ≤ 127 then mt else mt - 256 := by
        simp only [arrived, sign, received_signed mtRange.1 mtRange.2]
      rw [same, mtArrived]
      simp

/-- A client with one callback, for type 200, and one connection. -/
def listening : BlmClient :=
  { BlmClient.init.addCandidate raceEnv 80 [0x61] with
    msgMap := registry [(200, ⟨1, 1⟩)] }

def listeningConn : Conn :=
  { ip := [0x61], port := 80, keys := ⟨rc4_key, raceEnv.randomKey 0⟩, recved := [], sent := [] }

/-- Type 127 is delivered as it is sent also where plain `char` is signed. -/
theorem delivered_iff_low :
    ∃ sent, BlmClient.sendMsg raceEnv.libs (some listeningConn.keys) BodyRoundTrip.sampleCtx 0 127 1
        [] = .ok sent ∧
      DeliveredAs raceEnv [(200, ⟨1, 1⟩)] listening 0 sent.bufs.flatten ⟨127, 1, [], sent.ret⟩ := by
  obtain ⟨sent, ran, reads⟩ := delivered_iff raceEnv [(200, ⟨1, 1⟩)] 127 1 (by decide) (by decide)
    (by decide) [] (by decide) BodyRoundTrip.sampleCtx 0 listening rfl 0 listeningConn rfl
  exact ⟨sent, ran, (reads sent.bufs.flatten rfl).2.mpr (.inr (.inl (by decide)))⟩

/-- Type 200 where plain `char` is signed: it arrives as -56, and its callback is not called. -/
theorem high_type_undelivered :
    ¬ ∀ (env : Env) (regs : List (Int × Callback)) (mt st : Int), 0 ≤ mt ∧ mt ≤ 255 →
      0 ≤ st ∧ st ≤ 255 → ¬ (mt = 255 ∧ st = 255) → ∀ payload : Bytes, payload.length ≤ 1024 →
      ∀ (ctx : CallCtx) (msgid : CInt) (c : BlmClient), c.msgMap = registry regs →
      ∀ (p : Nat) (conn : Conn), c.objs.live.lookup p = some conn →
      ∀ sent, BlmClient.sendMsg env.libs (some conn.keys) ctx msgid mt st payload = .ok sent →
      ∀ data, conn.recved ++ data = sent.bufs.flatten →
        DeliveredAs env regs c p data ⟨mt, st, payload, sent.ret⟩ := by
  intro claim
  obtain ⟨sent, msg, body, ran, framed, mtEq, stEq, id, decodes⟩ :=
    send_frame raceEnv.libs listeningConn.keys BodyRoundTrip.sampleCtx 0 ⟨200, 1, []⟩ (by decide)
      (by decide)
  have delivered := claim raceEnv [(200, ⟨1, 1⟩)] 200 1 (by decide) (by decide) (by decide) []
    (by decide) BodyRoundTrip.sampleCtx 0 listening rfl 0 listeningConn rfl sent ran
    sent.bufs.flatten rfl
  have framed' : nextFrame listeningConn.keys.rc4.val (listeningConn.recved ++ sent.bufs.flatten) =
      .frame (msg, body) [] := by
    rw [← framed [], List.append_nil]
    rfl
  have read : (⟨-56, 1, [], sent.ret⟩ : Delivered) = ⟨charToInt raceEnv.sign msg.mt,
      charToInt raceEnv.sign msg.st, [], msg.id.toInt⟩ := by
    rw [mtEq, stEq, id]
    rfl
  have live : listening.objs.live.lookup 0 = some listeningConn := rfl
  rw [deliveredAs_frame live rfl framed' decodes read] at delivered
  rcases delivered with same | ⟨none, -⟩
  · cases same
  · cases none

end BlmLink.Guarantees.Dispatch
