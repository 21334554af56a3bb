import BlmLink.Lib.Framer
import BlmLink.Source.Aes128Cipher
import BlmLink.Source.Arc4
import BlmLink.Source.Zlib

/-!
# `ClientMsg`, `ClientTcp::sendMsg`, `decodeMsg` and `onDataRead`

blmcomm.cpp:228-241, 323-348, 360-398 and 479-481, on a little-endian host, where
`toLittleEndian` returns its argument. A frame is the twelve octets of a
`ClientMsg`, masked with RC4, and `len` octets of body. The sender compresses and
then encrypts; `decodeMsg` is translated as it stands, in the order it applies
the two inverses. `msgid` is the static counter that all connections share.
-/
namespace BlmLink.Source

open Lib

structure ClientMsg where
  st : Byte
  mt : Byte
  compress : Byte
  encrypt : Byte
  id : CInt
  len : CInt
  deriving DecidableEq, Repr

namespace ClientMsg

/-- `sizeof(ClientMsg)`: four `char` and two aligned `int` members. -/
def size : Nat := 12

/-- The object representation, members in declaration order. -/
def toBytes (msg : ClientMsg) : Bytes :=
  [msg.st, msg.mt, msg.compress, msg.encrypt] ++ (leBytes msg.id ++ leBytes msg.len)

/-- `*(const ClientMsg*)p`. -/
def ofBytes (bs : Bytes) : ClientMsg where
  st := bs.getD 0 0
  mt := bs.getD 1 0
  compress := bs.getD 2 0
  encrypt := bs.getD 3 0
  id := leWord (bs.drop 4)
  len := leWord (bs.drop 8)

def isValid (msg : ClientMsg) : Bool :=
  (msg.compress == 0 || msg.compress == 1) && (msg.encrypt == 0 || msg.encrypt == 1)

@[simp] theorem length_toBytes (msg : ClientMsg) : msg.toBytes.length = size := rfl

theorem ofBytes_toBytes (msg : ClientMsg) : ofBytes msg.toBytes = msg := by
  have id := leWord_leBytes_append msg.id (leBytes msg.len)
  have len := leWord_leBytes_append msg.len []
  rw [List.append_nil] at len
  simp only [ofBytes, toBytes, List.cons_append, List.nil_append, List.getD_cons_zero,
    List.getD_cons_succ, List.drop_succ_cons, List.drop_zero, id]
  rw [show (leBytes msg.id ++ leBytes msg.len).drop 4 = leBytes msg.len from rfl, len]

end ClientMsg

/-- The two ciphers a `ClientTcp` holds. -/
structure Keys where
  rc4 : { key : Bytes // key.length = 32 }
  aes : Block

/-- `rc4_key`: sixteen octets given, the rest zero. -/
def rc4_key : { key : Bytes // key.length = 32 } :=
  ⟨[0x22, 0xBE, 0xE5, 0xCF, 0xBB, 0x07, 0x64, 0xD9, 0x00, 0x45, 0x1B, 0xD0, 0x24, 0xB8, 0xD5, 0x45]
    ++ List.replicate 16 0, rfl⟩

/-- The libraries the codec calls. -/
structure Libs where
  zlib : ZlibLib
  aes : AesEcb

/-- What one call finds: the bound of zlib's doubling loop and the initial
contents of the blocks that `Zlib` and `AES128Cipher` allocate. -/
structure CallCtx where
  fuel : Nat
  zmem : FreshMem
  amem : FreshMem

/-- What a `sendMsg` leaves: its return value, the static counter, and the
buffers handed to `sendData`, in order. -/
structure Sent where
  ret : Int
  msgid : CInt
  bufs : List Bytes

namespace ClientTcp

variable (libs : Libs) (keys : Keys)

/-- `encd` of `sendMsg`: compress, then encrypt. Only the key frame, type
(255, 255), is exempt from encryption. -/
def encodeBody (ctx : CallCtx) (mt st compressType encryptType : Int) (data : Bytes) :
    Except Fault Bytes := do
  let compressed : Except Fault Bytes :=
    if compressType = 0 then .ok data else Zlib.compress libs.zlib ctx.fuel ctx.zmem data
  let comd ← compressed
  if encryptType = 0 ∨ (mt = 255 ∧ st = 255) then .ok comd
  else AES128Cipher.encrypt libs.aes keys.aes ctx.amem comd

def sendMsg (ctx : CallCtx) (msgid : CInt) (mt st compressType encryptType : Int) (data : Bytes) :
    Except Fault Sent :=
  if (compressType ≠ 0 ∧ compressType ≠ 1) ∨ (encryptType ≠ 0 ∧ encryptType ≠ 1) then
    .ok { ret := 0, msgid := msgid, bufs := [] }
  else do
    let encd ← encodeBody libs keys ctx mt st compressType encryptType data
    let msg : ClientMsg :=
      { st := intToChar st, mt := intToChar mt, compress := intToChar compressType
        encrypt := intToChar encryptType, id := msgid + 1, len := BitVec.ofNat 32 encd.length }
    .ok { ret := (msgid + 1).toInt, msgid := msgid + 1
          bufs := [rc4buf keys.rc4.val msg.toBytes, encd] }

/-- `decodeMsg` on the two flag octets of the header and the body. -/
def decodeMsg (ctx : CallCtx) (compress encrypt : Byte) (data : Bytes) : Except Fault Bytes := do
  let uncompressed : Except Fault Bytes :=
    if compress = 0 then .ok data else Zlib.uncompress libs.zlib ctx.fuel ctx.zmem data
  let comd ← uncompressed
  if encrypt = 0 then .ok comd else AES128Cipher.decrypt libs.aes keys.aes ctx.amem comd

theorem encodeBody_ok {ctx : CallCtx} {mt st compressType encryptType : Int} {data body : Bytes}
    (encoded : encodeBody libs keys ctx mt st compressType encryptType data = .ok body) :
    ∃ comd, (if compressType = 0 then .ok data
      else Zlib.compress libs.zlib ctx.fuel ctx.zmem data) = Except.ok comd ∧
      (if encryptType = 0 ∨ (mt = 255 ∧ st = 255) then .ok comd
      else AES128Cipher.encrypt libs.aes keys.aes ctx.amem comd) = Except.ok body :=
  bind_ok encoded

theorem decodeMsg_ok {ctx : CallCtx} {compress encrypt : Byte} {data cont : Bytes}
    (decoded : decodeMsg libs keys ctx compress encrypt data = .ok cont) :
    ∃ comd, (if compress = 0 then .ok data
      else Zlib.uncompress libs.zlib ctx.fuel ctx.zmem data) = Except.ok comd ∧
      (if encrypt = 0 then .ok comd
      else AES128Cipher.decrypt libs.aes keys.aes ctx.amem comd) = Except.ok cont :=
  bind_ok decoded

/-- With accepted flags the second buffer handed to `sendData` is the encoded body. -/
theorem encodeBody_of_sendMsg {ctx : CallCtx} {msgid : CInt}
    {mt st compressType encryptType : Int} {data : Bytes} {sent : Sent} {head body : Bytes}
    (run : sendMsg libs keys ctx msgid mt st compressType encryptType data = .ok sent)
    (bufs : sent.bufs = [head, body]) :
    encodeBody libs keys ctx mt st compressType encryptType data = .ok body := by
  unfold sendMsg at run
  split at run
  · cases run
    cases bufs
  · obtain ⟨encd, encoded, run⟩ := bind_ok run
    cases run
    cases bufs
    exact encoded

end ClientTcp

/-- `BlmClient::sendMsg`; `none` is a NULL `clientTcp`. -/
def BlmClient.sendMsg (libs : Libs) (clientTcp : Option Keys) (ctx : CallCtx) (msgid : CInt)
    (mt st : Int) (data : Bytes) : Except Fault Sent :=
  match clientTcp with
  | none => .ok { ret := -1, msgid := msgid, bufs := [] }
  | some keys =>
    ClientTcp.sendMsg libs keys ctx msgid mt st (if 1024 < data.length then 1 else 0) 1 data

/-- Why `onDataRead` ended early: a nonzero return value, or a fault below it. -/
inductive Stop where
  | returned (eno : Int)
  | fault (reason : Fault)
  deriving DecidableEq, Repr

/-- The arguments of one `processMsg` call. -/
structure Delivered where
  mt : Int
  st : Int
  cont : Bytes
  msgid : Int
  deriving DecidableEq, Repr

/-- `16*1024*1024`. -/
def maxLen : Nat := 16 * 1024 * 1024

/-- The front of `recved`, as one turn of the loop of `onDataRead` reads it. -/
def nextFrame (rc4key : Bytes) (recved : Bytes) : Framer.Next Byte (ClientMsg × Bytes) Stop :=
  if recved.length < ClientMsg.size then .more
  else
    let msg := ClientMsg.ofBytes (rc4buf rc4key (recved.take ClientMsg.size))
    if msg.len.toInt < 0 ∨ (maxLen : Int) < msg.len.toInt then .fail (.returned (-1))
    else if recved.length < ClientMsg.size + msg.len.toNat then .more
    else .frame (msg, (recved.drop ClientMsg.size).take msg.len.toNat)
      (recved.drop (ClientMsg.size + msg.len.toNat))

theorem nextFrame_frame (rc4key recved : Bytes) (msg : ClientMsg) (body rest : Bytes)
    (taken : nextFrame rc4key recved = .frame (msg, body) rest) :
    ClientMsg.size + msg.len.toNat ≤ recved.length ∧
    msg = ClientMsg.ofBytes (rc4buf rc4key (recved.take ClientMsg.size)) ∧
    ¬ (msg.len.toInt < 0 ∨ (maxLen : Int) < msg.len.toInt) ∧
    body = (recved.drop ClientMsg.size).take msg.len.toNat ∧
    rest = recved.drop (ClientMsg.size + msg.len.toNat) := by
  unfold nextFrame at taken
  split at taken
  · cases taken
  · dsimp only at taken
    split at taken
    · cases taken
    next inRange =>
      split at taken
      · cases taken
      next complete =>
        cases taken
        exact ⟨by omega, rfl, inRange, rfl, rfl⟩

/-- The only failure of the loop itself is a refused length. -/
theorem nextFrame_fail (rc4key recved : Bytes) (reason : Stop)
    (failed : nextFrame rc4key recved = .fail reason) : reason = .returned (-1) := by
  unfold nextFrame at failed
  split at failed
  · cases failed
  · dsimp only at failed
    split at failed
    · cases failed
      rfl
    · split at failed <;> cases failed

/-- Later input only extends the rest: the header and the body are already there. -/
theorem nextFrame_append_frame (rc4key recved later : Bytes) (msg : ClientMsg) (body rest : Bytes)
    (taken : nextFrame rc4key recved = .frame (msg, body) rest) :
    nextFrame rc4key (recved ++ later) = .frame (msg, body) (rest ++ later) := by
  obtain ⟨complete, header, inRange, bodyEq, restEq⟩ := nextFrame_frame _ _ _ _ _ taken
  have head : (recved ++ later).take ClientMsg.size = recved.take ClientMsg.size :=
    List.take_append_of_le_length (by omega)
  have lengthLe : ¬ (recved ++ later).length < ClientMsg.size := by
    rw [List.length_append]
    omega
  have completeLe : ¬ (recved ++ later).length < ClientMsg.size + msg.len.toNat := by
    rw [List.length_append]
    omega
  have bodyLe : ((recved ++ later).drop ClientMsg.size).take msg.len.toNat = body := by
    rw [List.drop_append_of_le_length (by omega),
      List.take_append_of_le_length (by rw [List.length_drop]; omega), bodyEq]
  have restLe : (recved ++ later).drop (ClientMsg.size + msg.len.toNat) = rest ++ later := by
    rw [List.drop_append_of_le_length complete, restEq]
  simp only [nextFrame, if_neg lengthLe, head, ← header, if_neg inRange, if_neg completeLe, bodyLe,
    restLe]

theorem nextFrame_append_fail (rc4key recved later : Bytes) (reason : Stop)
    (failed : nextFrame rc4key recved = .fail reason) :
    nextFrame rc4key (recved ++ later) = .fail reason := by
  unfold nextFrame at failed
  split at failed
  · cases failed
  next enough =>
    have head : (recved ++ later).take ClientMsg.size = recved.take ClientMsg.size :=
      List.take_append_of_le_length (by omega)
    have lengthLe : ¬ (recved ++ later).length < ClientMsg.size := by
      rw [List.length_append]
      omega
    dsimp only at failed
    split at failed
    next outOfRange =>
      cases failed
      simp only [nextFrame, if_neg lengthLe, head, if_pos outOfRange]
    · split at failed <;> cases failed

/-- The frame loop as a stable reader of the received octets. -/
def frameReader (rc4key : Bytes) : Framer.Reader Byte (ClientMsg × Bytes) Stop where
  next := nextFrame rc4key
  shrinks := by
    intro recved item rest taken
    obtain ⟨complete, _, _, _, restEq⟩ := nextFrame_frame _ _ item.1 item.2 _ taken
    rw [restEq, List.length_drop]
    have positive : 0 < ClientMsg.size := by decide
    omega
  stable_frame := by
    intro recved item rest later taken
    exact nextFrame_append_frame _ _ later item.1 item.2 rest taken
  stable_fail := by
    intro recved reason later failed
    exact nextFrame_append_fail _ _ later reason failed

/-- What a connection reads with: its RC4 key, the platform's `char`, and `decodeMsg`. -/
structure Receiver where
  rc4key : Bytes
  sign : CharSign
  decode : (compress encrypt : Byte) → Bytes → Except Fault Bytes

section
variable {σ : Type} (rcv : Receiver) (process : σ → Delivered → σ × Option Stop)

/-- One frame: decode the body and call `processMsg`, whose answer `none` is 0. -/
def deliver (s : σ) (frame : ClientMsg × Bytes) : σ × Option Stop :=
  match rcv.decode frame.1.compress frame.1.encrypt frame.2 with
  | .error reason => (s, some (.fault reason))
  | .ok cont =>
    process s { mt := charToInt rcv.sign frame.1.mt, st := charToInt rcv.sign frame.1.st
                cont := cont, msgid := frame.1.id.toInt }

/-- `ClientTcp::onDataRead`: append to `recved` and take off complete frames. -/
def onDataRead (s : σ) (recved data : Bytes) : Framer.Outcome Byte Stop σ :=
  Framer.drain (frameReader rcv.rc4key) (deliver rcv process) s (recved ++ data)

/-- Invariant rule of the loop: a step of it is a `processMsg` call, a body that
does not decode, or a refused length. -/
theorem onDataRead_invariant {inv : σ → Prop} {cut : σ → Stop → Prop}
    (processed : ∀ {s} msg, inv s → Framer.Ends inv cut (process s msg).1 (process s msg).2)
    (undecoded : ∀ {s compress encrypt body reason}, inv s →
      rcv.decode compress encrypt body = .error reason → cut s (.fault reason))
    (refused : ∀ {s}, inv s → cut s (.returned (-1)))
    (s : σ) (recved data : Bytes) (initially : inv s) :
    Framer.Ends inv cut (onDataRead rcv process s recved data).state
      (onDataRead rcv process s recved data).stop := by
  refine Framer.drain_invariant (frameReader rcv.rc4key) (deliver rcv process) ?_ ?_ s
    (recved ++ data) initially
  · intro s frame going
    unfold deliver
    cases decoded : rcv.decode frame.1.compress frame.1.encrypt frame.2 with
    | error reason => exact undecoded going decoded
    | ok cont => exact processed _ going
  · intro s buf reason going failed
    obtain rfl := nextFrame_fail _ _ _ failed
    exact refused going

/-- One `onDataRead` for each chunk read, until one does not return 0. -/
def readChunks (s : σ) (recved : Bytes) (chunks : List Bytes) : Framer.Outcome Byte Stop σ :=
  match chunks with
  | [] => ⟨s, recved, none⟩
  | chunk :: rest =>
    let outcome := onDataRead rcv process s recved chunk
    match outcome.stop with
    | none => readChunks outcome.state outcome.left rest
    | some _ => outcome

theorem readChunks_eq_feed (s : σ) (recved : Bytes) (chunks : List Bytes) :
    readChunks rcv process s recved chunks =
      Framer.feed (frameReader rcv.rc4key) (deliver rcv process) s recved chunks := by
  induction chunks generalizing s recved with
  | nil => rfl
  | cons chunk rest ih =>
    simp only [readChunks, Framer.feed, onDataRead]
    cases Framer.drain (frameReader rcv.rc4key) (deliver rcv process) s (recved ++ chunk) with
    | mk s' left stop =>
      cases stop with
      | none => exact ih s' left
      | some reason => rfl

end

end BlmLink.Source
