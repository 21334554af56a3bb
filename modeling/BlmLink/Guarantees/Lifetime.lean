import BlmLink.Guarantees.Ownership

/-!
# No connection is used after it was deleted

`on_ioqueue_connect` and `on_ioqueue_read` go on using the connection after the
connect or message callbacks return: they start the next read, call `onClose`
through it, or read its `recved`. A callback that calls `disconnect` or
`connectFastest` deletes exactly that connection. So the functions are safe as
long as these callbacks only send (`no_use_after_delete`), and an event during
which one of them did more never ends well (`quiet_of_ok`).
-/
namespace BlmLink.Guarantees.Lifetime

open BlmLink.Lib BlmLink.Source Ownership

variable {env : Env} {c : BlmClient} {p : Nat}

/-- A call that drops the connection leaves no object live that was there before. -/
theorem call_live (inv : Inv c) (created : c.objs.Created p) (call : Call) :
    Safe MemoryFault (c.call env call) fun c' => Inv c' ∧ c'.objs.Created p ∧
      (p ∈ c'.objs.live → p ∈ c.objs.live ∧ ¬ Drops call) := by
  have safe : Safe MemoryFault (c.call env call) Inv := safe_call inv call
  refine ⟨?_, safe.fails⟩
  intro c' returned
  refine ⟨safe.returns returned, ?_⟩
  cases call with
  | connectFastest ips port =>
    obtain ⟨objs, cands, rfl, keys, later, grows⟩ :=
      (safe_connectFastest inv.exact ips port).returns returned
    refine ⟨Nat.lt_of_lt_of_le created grows, ?_⟩
    intro live
    have late := later p (keys.mem_iff.mp live)
    unfold Objects.Created at created
    omega
  | disconnect =>
    obtain ⟨objs, rfl, empty, fresh⟩ := (safe_disconnect inv.exact).returns returned
    refine ⟨Nat.lt_of_lt_of_eq created fresh.symm, ?_⟩
    intro live
    rw [AList.mem_keys, empty] at live
    cases live
  | sendMsg ctx mt st data =>
    have kept := (safe_send inv.exact ctx mt st data).returns returned
    refine ⟨Nat.lt_of_lt_of_eq created kept.fresh.symm, ?_⟩
    exact fun live => ⟨kept.live_iff.mp live, fun drops => drops⟩

theorem calls_live (inv : Inv c) (created : c.objs.Created p) (calls : List Call) :
    Safe MemoryFault (calls.foldlM (BlmClient.call env) c) fun c' => Inv c' ∧ c'.objs.Created p ∧
      (p ∈ c'.objs.live → p ∈ c.objs.live ∧ ∀ call ∈ calls, ¬ Drops call) := by
  induction calls generalizing c with
  | nil => exact .ok ⟨inv, created, by simp⟩
  | cons call calls ih =>
    rw [List.foldlM_cons]
    apply (call_live inv created call).bind
    rintro c₁ ⟨inv₁, created₁, live₁⟩
    apply (ih inv₁ created₁).imp
    rintro c₂ ⟨inv₂, created₂, live₂⟩
    refine ⟨inv₂, created₂, ?_⟩
    intro live
    obtain ⟨live, others⟩ := live₂ live
    obtain ⟨live, first⟩ := live₁ live
    exact ⟨live, List.forall_mem_cons.mpr ⟨first, others⟩⟩

/-- The callbacks called since `c`: if the connection is still live, it was before,
and none of them dropped it. -/
structure Heard (p : Nat) (c : BlmClient) (replies : List Reply) (c' : BlmClient)
    (left : List Reply) : Prop where
  inv : Inv c'
  created : c'.objs.Created p
  used : ∃ used, replies = used ++ left ∧
    (p ∈ c'.objs.live → p ∈ c.objs.live ∧ ∀ reply ∈ used, Quiet reply)

theorem heard_refl (inv : Inv c) (created : c.objs.Created p) (replies : List Reply) :
    Heard p c replies c replies :=
  ⟨inv, created, [], rfl, by simp⟩

theorem callList_heard (inv : Inv c) (created : c.objs.Created p) (msg : Option Delivered)
    (cbs : List Callback) (replies : List Reply) :
    Safe MemoryFault (BlmClient.callList env msg cbs c replies) fun ran =>
      Heard p c replies ran.client ran.replies := by
  refine callList_rule noReply_allowed (P := Heard p c replies) msg cbs ?_ (heard_refl inv created replies)
  rintro c₁ reply left cb ⟨inv₁, created₁, used, split, live₁⟩
  apply (calls_live ((kept_called c₁ cb msg).inv inv₁) created₁ reply.calls).imp
  rintro c₂ ⟨inv₂, created₂, live₂⟩
  refine ⟨inv₂, created₂, used ++ [reply], by rw [split, List.append_assoc]; rfl, ?_⟩
  intro live
  obtain ⟨live, last⟩ := live₂ live
  obtain ⟨live, before⟩ := live₁ live
  refine ⟨live, ?_⟩
  intro r member
  rcases List.mem_append.mp member with member | member
  · exact before r member
  · rw [List.mem_singleton.mp member]
    exact last

theorem processMsg_heard (inv : Inv c) (created : c.objs.Created p) (msg : Delivered)
    (replies : List Reply) :
    Safe MemoryFault (c.processMsg env msg replies) fun ran =>
      Heard p c replies ran.client ran.replies := by
  unfold BlmClient.processMsg
  split
  · exact .ok (heard_refl inv created replies)
  · exact callList_heard inv created _ _ replies

theorem created_of_live (live : p ∈ c.objs.live) : c.objs.Created p := c.objs.live_lt p live

theorem tcpOnConnect_heard (inv : Inv c) (member : p ∈ c.tcpCandidates) (ctx : CallCtx)
    (replies : List Reply) :
    Safe MemoryFault (c.tcpOnConnect env p ctx replies) fun ran =>
      Heard p c replies ran.client ran.replies := by
  have live := candidate_live inv member
  apply safe_tcpOnConnect_of inv member ctx
  intro conn sent kept
  unfold BlmClient.onConnect
  apply (safe_accept (kept.inv inv) (kept.tcpCandidates ▸ member)).bind
  rintro _ ⟨accepted, objs, -, rfl⟩
  have there : p ∈ objs.live := clientTcp_live accepted.exact rfl
  apply (callList_heard accepted (created_of_live (c := { c with objs := objs }) there) none _
    replies).imp
  rintro ran ⟨inv', created', used, split, live'⟩
  exact ⟨inv', created', used, split, fun still => ⟨live, (live' still).2⟩⟩

section read

variable {replies : List Reply}

/-- Where the frame loop of a read stands: the connection is live, and all
callbacks so far were quiet. -/
structure Reading (p : Nat) (replies : List Reply) (s : BlmClient × List Reply) : Prop where
  inv : Inv s.1
  live : p ∈ s.1.objs.live
  used : ∃ used, replies = used ++ s.2 ∧ ∀ reply ∈ used, Quiet reply

/-- How the loop may be cut short: after a nonzero answer the connection may be gone. -/
def Cut (p : Nat) (replies : List Reply) (s : BlmClient × List Reply) : Stop → Prop
  | .returned _ => ∃ used, replies = used ++ s.2 ∧
      (p ∈ s.1.objs.live → ∀ reply ∈ used, Quiet reply)
  | .fault _ => True

theorem process_reading {s : BlmClient × List Reply} (reading : Reading p replies s)
    (msg : Delivered) :
    Framer.Ends (Reading p replies) (Cut p replies) (BlmClient.process env p s msg).1
      (BlmClient.process env p s msg).2 := by
  obtain ⟨inv, live, before, split, quiet⟩ := reading
  unfold BlmClient.process
  cases result : s.1.processMsg env msg s.2 with
  | error reason => trivial
  | ok ran =>
    obtain ⟨inv', -, used, split', still⟩ :=
      (processMsg_heard inv (created_of_live live) msg s.2).returns result
    have all : replies = (before ++ used) ++ ran.replies := by
      rw [split, split', List.append_assoc]
    have quietAll : p ∈ ran.client.objs.live → ∀ reply ∈ before ++ used, Quiet reply := by
      intro there reply member
      rcases List.mem_append.mp member with member | member
      · exact quiet reply member
      · exact (still there).2 reply member
    dsimp only
    split
    · exact ⟨before ++ used, all, quietAll⟩
    · unfold BlmClient.deref
      cases found : ran.client.objs.live.lookup p with
      | none => trivial
      | some conn =>
        have there : p ∈ ran.client.objs.live := Objects.live_of_lookup found
        exact ⟨inv', there, before ++ used, all, quietAll there⟩

theorem onDataRead_reading (inv : Inv c) (live : p ∈ c.objs.live) (conn : Conn) (ctx : CallCtx)
    (data : Bytes) {outcome : Framer.Outcome Byte Stop (BlmClient × List Reply)}
    (ran : onDataRead (BlmClient.receiver env conn ctx) (BlmClient.process env p) (c, replies)
      conn.recved data = outcome) :
    Framer.Ends (Reading p replies) (Cut p replies) outcome.state outcome.stop := by
  subst ran
  refine onDataRead_invariant _ _ (fun msg reading => process_reading reading msg) ?_ ?_ _ _ _
    ⟨inv, live, [], rfl, by simp⟩
  · intros
    trivial
  · rintro s ⟨-, -, used, split, quiet⟩
    exact ⟨used, split, fun _ => quiet⟩

/-- `onDataRead` ended, and the connection is still live: all callbacks were quiet. -/
theorem tcpOnDataRead_quiet (inv : Inv c) (live : p ∈ c.objs.live) {data : Bytes} {ctx : CallCtx}
    {ran : Ran} (returned : c.tcpOnDataRead env p data ctx replies = .ok ran)
    (still : p ∈ ran.client.objs.live) :
    ∃ used, replies = used ++ ran.replies ∧ ∀ reply ∈ used, Quiet reply := by
  unfold BlmClient.tcpOnDataRead at returned
  obtain ⟨conn, -, returned⟩ := bind_ok returned
  cases read : onDataRead (BlmClient.receiver env conn ctx) (BlmClient.process env p) (c, replies)
      conn.recved data with
  | mk state left stop =>
    have ended := onDataRead_reading inv live conn ctx data read
    rw [read] at returned
    dsimp only at returned
    cases stop with
    | none =>
      cases returned
      obtain ⟨used, split, quiet⟩ := ended.used
      exact ⟨used, split, quiet⟩
    | some stop =>
      cases stop with
      | fault reason => cases returned
      | returned eno =>
        cases returned
        obtain ⟨used, split, quiet⟩ := ended
        refine ⟨used, split, quiet ?_⟩
        dsimp only at still
        split at still
        · exact AList.mem_replace.mp still
        · exact still

end read

/-- Both handlers end with a use of the connection. -/
theorem live_of_closeOrRead {ran : Ran} {closing : Bool} {closeReplies : List Reply}
    {handled : BlmClient.Handled}
    (returned : BlmClient.closeOrRead env ran closing p closeReplies = .ok handled) :
    p ∈ ran.client.objs.live ∧ handled.replies = ran.replies := by
  have live : ∀ {conn}, ran.client.deref p = .ok conn → p ∈ ran.client.objs.live := by
    intro conn used
    unfold BlmClient.deref at used
    split at used
    next found => exact Objects.live_of_lookup found
    · cases used
  unfold BlmClient.closeOrRead at returned
  split at returned
  · obtain ⟨closed, closing, returned⟩ := bind_ok returned
    obtain ⟨conn, used, -⟩ := bind_ok closing
    cases returned
    exact ⟨live used, rfl⟩
  · obtain ⟨c', reading, returned⟩ := bind_ok returned
    obtain ⟨conn, used, -⟩ := bind_ok reading
    cases returned
    exact ⟨live used, rfl⟩

theorem quiet_of_allUsed {handled : Except Fault BlmClient.Handled} {replies : List Reply}
    {c' : BlmClient} (used : BlmClient.allUsed handled = some (.ok c'))
    (heard : ∀ {h}, handled = .ok h →
      ∃ used, replies = used ++ h.replies ∧ ∀ reply ∈ used, Quiet reply) :
    ∀ reply ∈ replies, Quiet reply := by
  unfold BlmClient.allUsed at used
  split at used
  · cases used
  · obtain ⟨all, split, quiet⟩ := heard rfl
    rw [split, List.append_nil]
    exact quiet
  · cases used

/-- The condition is exact: an event that ended well was quiet. -/
theorem quiet_of_ok (inv : Inv c) {e : BlmClient.Event} {c' : BlmClient}
    (stepped : c.next env e = some (.ok c')) : QuietEvent e := by
  cases e with
  | connect p status ctx replies closeReplies =>
    obtain ⟨member, used⟩ := Option.ite_none_right_eq_some.mp stepped
    apply quiet_of_allUsed used
    intro handled returned
    unfold BlmClient.onIoqueueConnect at returned
    split at returned
    · obtain ⟨-, left⟩ := live_of_closeOrRead returned
      exact ⟨[], left.symm, by simp⟩
    · obtain ⟨ran, connected, returned⟩ := bind_ok returned
      obtain ⟨live, left⟩ := live_of_closeOrRead returned
      obtain ⟨-, -, used, split, quiet⟩ := (tcpOnConnect_heard inv member ctx replies).returns connected
      exact ⟨used, left.symm ▸ split, (quiet live).2⟩
  | read p read ctx replies closeReplies =>
    obtain ⟨live, used⟩ := Option.ite_none_right_eq_some.mp stepped
    apply quiet_of_allUsed used
    intro handled returned
    unfold BlmClient.onIoqueueRead at returned
    split at returned
    · cases returned
    · obtain ⟨-, left⟩ := live_of_closeOrRead returned
      exact ⟨[], left.symm, by simp⟩
    · obtain ⟨ran, delivered, returned⟩ := bind_ok returned
      obtain ⟨still, left⟩ := live_of_closeOrRead returned
      rw [left]
      exact tcpOnDataRead_quiet inv live delivered still
  | _ => trivial

/-- In every run in which the connect and message callbacks only send, whatever
the close callbacks do, no event uses a connection after its release; and an event
that ends without a fault was one in which they only sent. -/
theorem no_use_after_delete (env : Env) (events : List BlmClient.Event) (c : BlmClient)
    (run : Trace.Run (Trace.Guarded (Step env) fun _ => QuietEvent) .init events c) :
    (∀ e, QuietEvent e → c.next env e ≠ some (.error .useAfterFree)) ∧
    (∀ e c', c.next env e = some (.ok c') → QuietEvent e) := by
  have inv : Inv c := run.invariant inv_init inv_step
  refine ⟨?_, fun e c' stepped => quiet_of_ok inv stepped⟩
  intro e quiet failed
  exact (safe_next inv quiet failed).fails rfl (.inl rfl)

/-- A connect callback that sends one message, and then a close event. -/
def greeting : List BlmClient.Event :=
  [.addConnectCallback ⟨1, 1⟩, .call (.connectFastest [0x61] 80),
    .connect 0 0 BodyRoundTrip.sampleCtx
      [⟨[.sendMsg BodyRoundTrip.sampleCtx 1 2 []], 0⟩] []]

theorem greeting_quiet : ∀ e ∈ greeting, QuietEvent e := by
  intro e member
  simp only [greeting, List.mem_cons, List.not_mem_nil, or_false] at member
  rcases member with rfl | rfl | rfl
  · trivial
  · trivial
  · simp [QuietEvent, Quiet, Drops]

theorem no_use_after_delete_greeting :
    ∃ c, Trace.Run (Trace.Guarded (Step raceEnv) fun _ => QuietEvent) .init greeting c ∧
      c.clientTcp = some 0 ∧
      c.next raceEnv (.read 0 (some []) BodyRoundTrip.sampleCtx [] []) ≠
        some (.error .useAfterFree) := by
  have run : ∃ c, Trace.Run (Trace.Guarded (Step raceEnv) fun _ => QuietEvent) .init greeting c ∧
      c.clientTcp = some 0 := by
    refine ⟨_, .cons ⟨rfl, greeting_quiet _ (by simp [greeting])⟩ (.cons ⟨rfl, greeting_quiet _ ?_⟩
      (.cons ⟨rfl, greeting_quiet _ ?_⟩ (.nil _))), rfl⟩ <;> simp [greeting]
  obtain ⟨c, run, current⟩ := run
  refine ⟨c, run, current, (no_use_after_delete raceEnv greeting c run).1 _ ?_⟩
  simp [QuietEvent]

/-- All connect and message callbacks called during the event return 0. -/
def AnswersZero : BlmClient.Event → Prop
  | .connect _ _ _ replies _ => ∀ reply ∈ replies, reply.ret = 0
  | .read _ _ _ replies _ => ∀ reply ∈ replies, reply.ret = 0
  | _ => True

/-- A connect callback that calls `disconnect` and returns 0: `startRead` is then
called on the deleted connection. -/
theorem startRead_after_delete :
    ¬ ∀ (env : Env) (events : List BlmClient.Event) (c : BlmClient) (e : BlmClient.Event),
      Trace.Run (Trace.Guarded (Step env) fun _ => AnswersZero) .init events c → AnswersZero e →
      c.next env e ≠ some (.error .useAfterFree) := by
  intro claim
  have run : ∃ c, Trace.Run (Trace.Guarded (Step raceEnv) fun _ => AnswersZero) .init
      [.addConnectCallback ⟨1, 1⟩, .call (.connectFastest [0x61] 80)] c ∧
      c.next raceEnv (.connect 0 0 BodyRoundTrip.sampleCtx [⟨[.disconnect], 0⟩] []) =
        some (.error .useAfterFree) :=
    ⟨_, .cons ⟨rfl, trivial⟩ (.cons ⟨rfl, trivial⟩ (.nil _)), rfl⟩
  obtain ⟨c, run, used⟩ := run
  exact claim raceEnv _ c _ run (by simp [AnswersZero]) used

end BlmLink.Guarantees.Lifetime
