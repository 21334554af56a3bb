import BlmLink.Guarantees.Ownership

/-!
# The key frame comes first

`ClientTcp::onConnect` sends the connection's AES key, masked with RC4, before
`BlmClient::onConnect` makes the connection `clientTcp`; only then can `sendMsg`
reach it. So on every connection the key frame is the first one handed to
`sendData`, and all later bodies are encrypted under the key sent there
(`key_frame_first`). Nothing is asked of the callbacks: the invariant is kept by
each function that returns, also inside an event that ends in a fault.
-/
namespace BlmLink.Guarantees.KeyExchange

open BlmLink.Lib BlmLink.Source Ownership

variable {env : Env} {libs : Libs} {c c' : BlmClient}

/-- The two buffers of the key frame: type (0xff, 0xff), and the masked AES key itself
as its body. -/
def IsKeyFrame (keys : Keys) (bufs : List Bytes) : Prop :=
  ∃ msg : ClientMsg, bufs = [rc4buf keys.rc4.val msg.toBytes, rc4buf keys.rc4.val keys.aes.val] ∧
    msg.mt = 0xff ∧ msg.st = 0xff

/-- The two buffers of a message of type `(mt, st)`: its body is the text, compressed if
it is long, and encrypted under the connection's key unless the type is (255, 255). -/
def IsMessage (libs : Libs) (keys : Keys) (bufs : List Bytes) : Prop :=
  ∃ (mt st : Int) (data comd body : Bytes) (ctx : CallCtx) (msg : ClientMsg),
    bufs = [rc4buf keys.rc4.val msg.toBytes, body] ∧ msg.mt = intToChar mt ∧
    msg.st = intToChar st ∧
    (if 1024 < data.length then Zlib.compress libs.zlib ctx.fuel ctx.zmem data else .ok data) =
      .ok comd ∧
    (¬ (mt = 255 ∧ st = 255) → AES128Cipher.encrypt libs.aes keys.aes ctx.amem comd = .ok body)

/-- What a connection has sent: nothing, or its key frame and then messages. -/
def KeyFirst (libs : Libs) (conn : Conn) : Prop :=
  conn.sent = [] ∨ ∃ (key : List Bytes) (frames : List (List Bytes)),
    conn.sent = key ++ frames.flatten ∧ IsKeyFrame conn.keys key ∧
    ∀ frame ∈ frames, IsMessage libs conn.keys frame

/-- The invariant: only the current connection has sent anything. -/
structure Secured (libs : Libs) (c : BlmClient) : Prop where
  single : c.clientTcp ≠ none → c.tcpCandidates = []
  keyFirst : ∀ p conn, c.objs.live.lookup p = some conn → KeyFirst libs conn
  current : ∀ p conn, c.clientTcp = some p → c.objs.live.lookup p = some conn → conn.sent ≠ []
  candidates : ∀ p ∈ c.tcpCandidates, ∀ conn, c.objs.live.lookup p = some conn → conn.sent = []

section frames

variable {keys : Keys} {ctx : CallCtx} {msgid : CInt} {sent : Sent}

theorem keyFrame_sent
    (run : ClientTcp.sendMsg libs keys ctx msgid 0xff 0xff 0 1
      (rc4buf keys.rc4.val keys.aes.val) = .ok sent) : IsKeyFrame keys sent.bufs := by
  obtain ⟨encd, encoded, returned⟩ := bind_ok run
  obtain ⟨comd, plain, unencrypted⟩ := ClientTcp.encodeBody_ok libs keys encoded
  cases plain
  cases unencrypted
  cases returned
  exact ⟨_, rfl, rfl, rfl⟩

theorem message_sent {mt st : Int} {data : Bytes}
    (run : BlmClient.sendMsg libs (some keys) ctx msgid mt st data = .ok sent) :
    IsMessage libs keys sent.bufs := by
  unfold BlmClient.sendMsg ClientTcp.sendMsg at run
  have flags : ¬ (((if 1024 < data.length then 1 else 0 : Int) ≠ 0 ∧
      (if 1024 < data.length then 1 else 0 : Int) ≠ 1) ∨ ((1 : Int) ≠ 0 ∧ (1 : Int) ≠ 1)) := by
    split <;> simp
  dsimp only at run
  rw [if_neg flags] at run
  obtain ⟨encd, encoded, returned⟩ := bind_ok run
  obtain ⟨comd, compressed, encrypted⟩ := ClientTcp.encodeBody_ok libs keys encoded
  cases returned
  refine ⟨mt, st, data, comd, encd, ctx, _, rfl, rfl, rfl, ?_, ?_⟩
  · by_cases long : 1024 < data.length
    · simpa [long] using compressed
    · simpa [long] using compressed
  · intro ordinary
    rwa [if_neg (by simp [ordinary])] at encrypted

end frames

theorem keyFirst_key {conn : Conn} {bufs : List Bytes} (unused : conn.sent = [])
    (key : IsKeyFrame conn.keys bufs) : KeyFirst libs { conn with sent := conn.sent ++ bufs } := by
  right
  refine ⟨bufs, [], ?_, key, by simp⟩
  simp [unused]

theorem keyFirst_message {conn : Conn} {bufs : List Bytes} (first : KeyFirst libs conn)
    (used : conn.sent ≠ []) (message : IsMessage libs conn.keys bufs) :
    KeyFirst libs { conn with sent := conn.sent ++ bufs } := by
  rcases first with unused | ⟨key, frames, sent, isKey, messages⟩
  · exact absurd unused used
  · right
    refine ⟨key, frames ++ [bufs], by simp [sent], isKey, ?_⟩
    intro frame member
    rcases List.mem_append.mp member with member | member
    · exact messages frame member
    · rwa [List.mem_singleton.mp member]

theorem IsKeyFrame.ne_nil {keys : Keys} {bufs : List Bytes} (key : IsKeyFrame keys bufs) :
    bufs ≠ [] := by
  obtain ⟨msg, rfl, -⟩ := key
  simp

section functions

theorem secured_init : Secured libs .init where
  single := by simp [BlmClient.init]
  keyFirst := by simp [BlmClient.init, Objects.init]
  current := by simp [BlmClient.init]
  candidates := by simp [BlmClient.init]

theorem secured_note (secured : Secured libs c) (entry : Entry) : Secured libs (c.note entry) :=
  ⟨secured.single, secured.keyFirst, secured.current, secured.candidates⟩

theorem secured_disconnect (secured : Secured libs c) :
    Safe Unasked c.disconnect fun c' => Secured libs c' ∧ c'.clientTcp = none := by
  apply (disconnect_returns c).imp
  rintro _ ⟨objs, rfl, below⟩
  refine ⟨⟨by simp, ?_, by simp, by simp⟩, rfl⟩
  intro p conn found
  exact secured.keyFirst p conn (below.lookup found)

/-- A new connection has sent nothing, and it is a candidate. -/
theorem secured_addCandidate (secured : Secured libs c) (idle : c.clientTcp = none)
    (port : BitVec 16) (ip : Bytes) : Secured libs (c.addCandidate env port ip) := by
  have unused : ∀ {p conn}, (c.addCandidate env port ip).objs.live.lookup p = some conn →
      conn.sent = [] ∨ c.objs.live.lookup p = some conn := by
    intro p conn found
    by_cases new : p = c.objs.fresh
    · subst new
      rw [BlmClient.addCandidate, Objects.new, AList.lookup_insert] at found
      cases found
      exact .inl rfl
    · rw [BlmClient.addCandidate, Objects.new, AList.lookup_insert_ne new] at found
      exact .inr found
  refine ⟨fun current => absurd idle current, ?_, ?_, ?_⟩
  · intro p conn found
    exact (unused found).elim .inl (secured.keyFirst p conn)
  · intro p conn current
    rw [show (c.addCandidate env port ip).clientTcp = c.clientTcp from rfl, idle] at current
    cases current
  · intro p member conn found
    rcases unused found with none | old
    · exact none
    · rcases List.mem_append.mp member with before | last
      · exact secured.candidates p before conn old
      · rw [List.mem_singleton.mp last] at old
        exact absurd (Objects.live_of_lookup old) c.objs.fresh_not_live

theorem secured_connectFastest (secured : Secured libs c) (ips : Bytes) (port : BitVec 16) :
    Safe Unasked (c.connectFastest env ips port) (Secured libs) := by
  unfold BlmClient.connectFastest
  refine .bind (P := fun c' => Secured libs c' ∧ c'.clientTcp = none) ?_ ?_
  · split
    · exact secured_disconnect (secured_note secured _)
    next idle => exact .ok ⟨secured_note secured _, by simpa using (not_or.mp idle).1⟩
  · rintro c' ⟨secured', idle⟩
    apply Safe.ok
    generalize splitString ips 0x20 = pieces
    induction pieces generalizing c' with
    | nil => exact secured'
    | cons ip pieces ih => exact ih (secured_addCandidate secured' idle port ip) idle

/-- What the connection `p` and the others hold after a `sendMsg` on `p`. -/
theorem lookup_store {p q : Nat} {conn conn' : Conn} {sent : Sent}
    (live : c.objs.live.lookup p = some conn)
    (found : (c.store p conn sent).objs.live.lookup q = some conn') :
    (q = p ∧ conn' = { conn with sent := conn.sent ++ sent.bufs }) ∨
      (q ≠ p ∧ c.objs.live.lookup q = some conn') := by
  by_cases same : q = p
  · subst same
    rw [BlmClient.store, Objects.lookup_set live] at found
    cases found
    exact .inl ⟨rfl, rfl⟩
  · rw [BlmClient.store, Objects.lookup_set_ne same] at found
    exact .inr ⟨same, found⟩

theorem secured_send (secured : Secured env.libs c) (ctx : CallCtx) (mt st : Int) (data : Bytes) :
    Safe Unasked (c.send env ctx mt st data) (Secured env.libs) := by
  unfold BlmClient.send
  split
  · exact .ok secured
  next p current =>
    apply (deref_returns c p).bind
    intro conn live
    refine Safe.bind (P := fun sent => IsMessage env.libs conn.keys sent.bufs)
      ⟨message_sent, fun _ => id⟩ ?_
    intro sent message
    have used := secured.current p conn current live
    have none : c.tcpCandidates = [] := secured.single (by simp [current])
    refine .ok ⟨fun _ => none, ?_, ?_, ?_⟩
    · intro q conn' found
      rcases lookup_store live found with ⟨-, rfl⟩ | ⟨-, old⟩
      · exact keyFirst_message (secured.keyFirst p conn live) used message
      · exact secured.keyFirst q conn' old
    · intro q conn' current' found
      rcases lookup_store live found with ⟨-, rfl⟩ | ⟨-, old⟩
      · simp [used]
      · exact secured.current q conn' current' old
    · intro q member
      rw [show (c.store p conn sent).tcpCandidates = c.tcpCandidates from rfl, none] at member
      cases member

theorem secured_call (secured : Secured env.libs c) (call : Call) :
    Safe Unasked (c.call env call) (Secured env.libs) := by
  cases call with
  | connectFastest ips port => exact secured_connectFastest secured ips port
  | disconnect => exact (secured_disconnect secured).imp And.left
  | sendMsg ctx mt st data => exact secured_send secured ctx mt st data

theorem secured_callList (secured : Secured env.libs c) (msg : Option Delivered)
    (cbs : List Callback) (replies : List Reply) :
    Safe Unasked (BlmClient.callList env msg cbs c replies) fun ran =>
      Secured env.libs ran.client := by
  refine callList_rule id (P := fun c' _ => Secured env.libs c') msg cbs ?_ secured
  intro c₁ reply left cb secured₁
  exact Safe.foldlM (fun _ secured => secured_call secured _) (secured_note secured₁ _)

/-- The connection that sent its key becomes the current one. -/
theorem secured_accept {p : Nat}
    (keyFirst : ∀ q conn, c.objs.live.lookup q = some conn → KeyFirst libs conn)
    (used : ∀ conn, c.objs.live.lookup p = some conn → conn.sent ≠ []) :
    Safe Unasked (c.accept p) (Secured libs) := by
  unfold BlmClient.accept
  apply (deleteAll_returns _ _).bind
  rintro _ ⟨objs, rfl, below⟩
  refine .ok ⟨fun _ => rfl, ?_, ?_, by simp⟩
  · intro q conn found
    exact keyFirst q conn (below.lookup found)
  · rintro q conn ⟨⟩ found
    exact used conn (below.lookup found)

theorem secured_tcpOnConnect (secured : Secured env.libs c) {p : Nat}
    (member : p ∈ c.tcpCandidates) (ctx : CallCtx) (replies : List Reply) :
    Safe Unasked (c.tcpOnConnect env p ctx replies) fun ran => Secured env.libs ran.client := by
  unfold BlmClient.tcpOnConnect
  apply (deref_returns c p).bind
  intro conn live
  refine Safe.bind (P := fun sent => IsKeyFrame conn.keys sent.bufs) ⟨keyFrame_sent, fun _ => id⟩ ?_
  intro sent key
  have unused := secured.candidates p member conn live
  unfold BlmClient.onConnect
  refine Safe.bind (P := Secured env.libs) (secured_accept ?_ ?_) ?_
  · intro q conn' found
    rcases lookup_store live found with ⟨-, rfl⟩ | ⟨-, old⟩
    · exact keyFirst_key unused key
    · exact secured.keyFirst q conn' old
  · intro conn' found
    rcases lookup_store live found with ⟨-, rfl⟩ | ⟨other, -⟩
    · simp [key.ne_nil]
    · exact absurd rfl other
  · intro c' secured'
    exact secured_callList (secured_note secured' _) none _ replies

theorem secured_dropCandidate (secured : Secured libs c) (p : Nat) :
    Safe Unasked (c.dropCandidate p) (Secured libs) := by
  unfold BlmClient.dropCandidate
  split
  · exact .ok secured
  next i found =>
    have removed := swapRemove_found found
    apply (delete_returns c p).bind
    rintro _ ⟨objs, rfl, below⟩
    refine .ok ⟨?_, ?_, ?_, ?_⟩
    · intro current
      have none := removed.length_eq
      simp [secured.single current] at none
    · intro q conn live
      exact secured.keyFirst q conn (below.lookup live)
    · intro q conn current live
      exact secured.current q conn current (below.lookup live)
    · intro q member conn live
      have before := removed.mem_iff.mp (List.mem_cons_of_mem p member)
      exact secured.candidates q before conn (below.lookup live)

theorem secured_onClose (secured : Secured env.libs c) (p : Nat) (replies : List Reply) :
    Safe Unasked (c.onClose env p replies) fun ran => Secured env.libs ran.client := by
  unfold BlmClient.onClose
  apply (secured_dropCandidate secured p).bind
  intro c' secured'
  split
  · exact .ok secured'
  · apply (secured_disconnect secured').bind
    rintro c'' ⟨secured'', -⟩
    exact secured_callList (secured_note secured'' _) none _ replies

/-- Storing `recved` changes nothing that was sent. -/
theorem secured_recved (secured : Secured libs c) {p : Nat} {conn : Conn}
    (live : c.objs.live.lookup p = some conn) (left : Bytes) :
    Secured libs { c with objs := c.objs.set p { conn with recved := left } } := by
  have same : ∀ {q conn'}, (c.objs.set p { conn with recved := left }).live.lookup q = some conn' →
      ∃ old, c.objs.live.lookup q = some old ∧ conn'.sent = old.sent ∧ conn'.keys = old.keys := by
    intro q conn' found
    by_cases here : q = p
    · subst here
      rw [Objects.lookup_set live] at found
      cases found
      exact ⟨conn, live, rfl, rfl⟩
    · rw [Objects.lookup_set_ne here] at found
      exact ⟨conn', found, rfl, rfl⟩
  refine ⟨secured.single, ?_, ?_, ?_⟩
  · intro q conn' found
    obtain ⟨old, live, sent, keys⟩ := same found
    unfold KeyFirst
    rw [sent, keys]
    exact secured.keyFirst q old live
  · intro q conn' current found
    obtain ⟨old, live, sent, -⟩ := same found
    rw [sent]
    exact secured.current q old current live
  · intro q member conn' found
    obtain ⟨old, live, sent, -⟩ := same found
    rw [sent]
    exact secured.candidates q member old live

theorem secured_process (p : Nat) {s : BlmClient × List Reply} (secured : Secured env.libs s.1)
    (msg : Delivered) : Secured env.libs (BlmClient.process env p s msg).1.1 := by
  have returned : Safe Unasked (s.1.processMsg env msg s.2) fun ran =>
      Secured env.libs ran.client := by
    unfold BlmClient.processMsg
    split
    · exact .ok secured
    · exact secured_callList secured _ _ _
  unfold BlmClient.process
  cases result : s.1.processMsg env msg s.2 with
  | error reason => exact secured
  | ok ran =>
    have after := returned.returns result
    dsimp only
    split
    · exact after
    · split <;> exact after

theorem secured_onDataRead (p : Nat) (rcv : Receiver) {s : BlmClient × List Reply}
    (secured : Secured env.libs s.1) (recved data : Bytes) :
    Secured env.libs (onDataRead rcv (BlmClient.process env p) s recved data).state.1 := by
  have loop := @onDataRead_invariant _ rcv (BlmClient.process env p)
    (fun s => Secured env.libs s.1) (fun s _ => Secured env.libs s.1)
    ?_ (fun going _ => going) (fun going => going) s recved data secured
  · revert loop
    unfold Framer.Ends
    split <;> exact id
  · intro s msg going
    have after := secured_process p going msg
    unfold Framer.Ends
    split <;> exact after

theorem secured_tcpOnDataRead (secured : Secured env.libs c) (p : Nat) (data : Bytes)
    (ctx : CallCtx) (replies : List Reply) :
    Safe Unasked (c.tcpOnDataRead env p data ctx replies) fun ran =>
      Secured env.libs ran.client := by
  unfold BlmClient.tcpOnDataRead
  apply (deref_returns c p).bind
  intro conn _
  have ended : Secured env.libs (onDataRead (BlmClient.receiver env conn ctx)
      (BlmClient.process env p) (c, replies) conn.recved data).state.1 :=
    secured_onDataRead p _ secured conn.recved data
  revert ended
  generalize onDataRead (BlmClient.receiver env conn ctx) (BlmClient.process env p) (c, replies)
    conn.recved data = outcome
  intro ended
  have stored : Secured env.libs (storeLeft outcome.state.1 p outcome.left) := by
    unfold storeLeft
    split
    next live => exact secured_recved ended live _
    · exact ended
  dsimp only
  split
  · exact .error id
  · exact .ok stored
  · exact .ok stored

theorem secured_closeOrRead {ran : Ran} (secured : Secured env.libs ran.client) (closing : Bool)
    (p : Nat) (closeReplies : List Reply) :
    Safe Unasked (BlmClient.closeOrRead env ran closing p closeReplies) fun handled =>
      Secured env.libs handled.client := by
  unfold BlmClient.closeOrRead BlmClient.tcpOnClose BlmClient.startRead
  split
  · refine Safe.bind (P := fun closed => Secured env.libs closed.client) ?_ fun closed => .ok closed
    apply (deref_returns _ p).bind
    intro _ _
    exact secured_onClose secured p closeReplies
  · refine Safe.bind (P := Secured env.libs) ?_ fun same => .ok same
    apply (deref_returns _ p).bind
    intro _ _
    exact .ok secured

theorem secured_allUsed {handled : Except Fault BlmClient.Handled}
    (secured : Safe Unasked handled fun handled => Secured libs handled.client)
    (used : BlmClient.allUsed handled = some (.ok c')) : Secured libs c' := by
  unfold BlmClient.allUsed at used
  split at used
  · cases used
  · cases used
    exact secured.returns rfl
  · cases used

/-- One event keeps the invariant. -/
theorem secured_next (secured : Secured env.libs c) {e : BlmClient.Event}
    (stepped : c.next env e = some (.ok c')) : Secured env.libs c' := by
  cases e with
  | call call => exact (secured_call secured call).returns (Option.some.inj stepped)
  | addConnectCallback cb | addCloseCallback cb | addMsgCallback mt cb =>
    cases stepped
    exact ⟨secured.single, secured.keyFirst, secured.current, secured.candidates⟩
  | connect p status ctx replies closeReplies =>
    obtain ⟨member, used⟩ := Option.ite_none_right_eq_some.mp stepped
    apply secured_allUsed _ used
    unfold BlmClient.onIoqueueConnect
    split
    · exact secured_closeOrRead secured true p closeReplies
    · apply (secured_tcpOnConnect secured member ctx replies).bind
      exact fun after => secured_closeOrRead after _ p closeReplies
  | read p read ctx replies closeReplies =>
    obtain ⟨-, used⟩ := Option.ite_none_right_eq_some.mp stepped
    apply secured_allUsed _ used
    unfold BlmClient.onIoqueueRead
    split
    · exact .error id
    · exact secured_closeOrRead secured true p closeReplies
    · apply (secured_tcpOnDataRead secured p _ ctx replies).bind
      exact fun after => secured_closeOrRead after _ p closeReplies

end functions

/-- The client at some moment of a run: after whole events, and within one. A callback
that made some of its calls and has not returned is here a callback that made these and
answered nonzero, so every moment between two calls is one, also those before a fault and
those before the connection is deleted. -/
inductive Moment (env : Env) : BlmClient → Prop where
  | init : Moment env .init
  | event {c c' : BlmClient} {e : BlmClient.Event} (before : Moment env c)
      (stepped : Step env c e c') : Moment env c'
  | connecting {c : BlmClient} {p : Nat} {ctx : CallCtx} {replies : List Reply} {ran : Ran}
      (before : Moment env c) (pending : p ∈ c.tcpCandidates)
      (entered : c.tcpOnConnect env p ctx replies = .ok ran) : Moment env ran.client
  | reading {c : BlmClient} {p : Nat} {data : Bytes} {ctx : CallCtx} {replies : List Reply}
      {ran : Ran} (before : Moment env c)
      (entered : c.tcpOnDataRead env p data ctx replies = .ok ran) : Moment env ran.client
  | closing {c : BlmClient} {p : Nat} {replies : List Reply} {ran : Ran} (before : Moment env c)
      (entered : c.onClose env p replies = .ok ran) : Moment env ran.client

theorem secured_moment (moment : Moment env c) : Secured env.libs c := by
  induction moment with
  | init => exact secured_init
  | event before stepped ih => exact secured_next ih stepped
  | connecting before pending entered ih =>
    exact (secured_tcpOnConnect ih pending _ _).returns entered
  | reading before entered ih => exact (secured_tcpOnDataRead ih _ _ _ _).returns entered
  | closing before entered ih => exact (secured_onClose ih _ _).returns entered

/-- A connect callback that greets the peer: the key frame, then the greeting. -/
def greeting : List BlmClient.Event :=
  [.addConnectCallback ⟨1, 1⟩, .call (.connectFastest [0x61] 80),
    .connect 0 0 BodyRoundTrip.sampleCtx
      [⟨[.sendMsg BodyRoundTrip.sampleCtx 1 2 [0x68, 0x69]], 0⟩] []]

end BlmLink.Guarantees.KeyExchange
