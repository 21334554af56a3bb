import Mathlib
import BlmLink.Source.ClientTcp

/-!
# Message bodies: what `decodeMsg` makes of what `sendMsg` sends

`sendMsg` compresses first and encrypts the result; `decodeMsg` should undo the
encryption first, but it decompresses first. With at most one of the two layers
the order does not matter and the body is restored. With both, `uncompress` is
handed the ciphertext, fails, and the decoded text is made of the octets its
fresh output block happened to hold (`decodeMsg_both_layers`).
-/
namespace BlmLink.Guarantees.BodyRoundTrip

open BlmLink.Source

/-- `decodeMsg` with these flags ends and returns `data`, whatever the blocks it
allocates hold at first. -/
def Restores (libs : Libs) (keys : Keys) (compressType encryptType : Int) (body data : Bytes) :
    Prop :=
  ∀ zmem amem, ∃ fuel, ClientTcp.decodeMsg libs keys ⟨fuel, zmem, amem⟩
    (intToChar compressType) (intToChar encryptType) body = .ok data

section Layers
variable (libs : Libs) (keys : Keys) (ctx : CallCtx) (mt st : Int) (data body : Bytes)

/-- No compression: the only layer is the cipher's, if any, and `decodeMsg` needs
neither zlib nor the contents of fresh memory. -/
theorem decodeMsg_plain (encryptType : Int) (flag : encryptType = 0 ∨ encryptType = 1)
    (ordinary : ¬ (mt = 255 ∧ st = 255))
    (encoded : ClientTcp.encodeBody libs keys ctx mt st 0 encryptType data = .ok body)
    (ctx' : CallCtx) :
    ClientTcp.decodeMsg libs keys ctx' (intToChar 0) (intToChar encryptType) body = .ok data := by
  obtain ⟨comd, plain, encoded⟩ := ClientTcp.encodeBody_ok libs keys encoded
  rw [if_pos rfl] at plain
  cases plain
  rcases flag with rfl | rfl
  · rw [if_pos (Or.inl rfl)] at encoded
    cases encoded
    rfl
  · rw [if_neg (by simp [ordinary])] at encoded
    obtain ⟨cipher, encrypted, decrypted⟩ :=
      AES128Cipher.decrypt_encrypt libs.aes keys.aes ctx.amem ctx'.amem data
    rw [encoded] at encrypted
    cases encrypted
    exact decrypted

/-- No encryption: the only layer is zlib's. -/
theorem restores_unencrypted (undoes : Zlib.Undoes libs.zlib)
    (encoded : ClientTcp.encodeBody libs keys ctx mt st 1 0 data = .ok body) :
    Restores libs keys 1 0 body data := by
  intro zmem amem
  obtain ⟨comd, compressed, encoded⟩ := ClientTcp.encodeBody_ok libs keys encoded
  rw [if_neg (by decide)] at compressed
  rw [if_pos (Or.inl rfl)] at encoded
  cases encoded
  obtain ⟨fuel, restored⟩ := undoes ctx.fuel ctx.zmem data _ compressed zmem
  refine ⟨fuel, ?_⟩
  change (Zlib.uncompress libs.zlib fuel zmem body >>= fun comd => Except.ok comd) = _
  rw [restored]
  rfl

/-- Both layers, once decompression of the ciphertext has ended: `decodeMsg`
returns any text whatever of one octet less than the last output block, the
choice being that block's initial contents. -/
theorem decodeMsg_both_layers (IsStream : Bytes → Prop) (rejects : Zlib.Rejects libs.zlib IsStream)
    (blocks : body.length % 16 = 0) (foreign : ¬ IsStream body) (nonempty : body ≠ [])
    (ended : ∃ fuel mem out, Zlib.uncompress libs.zlib fuel mem body = .ok out) (amem : FreshMem) :
    ∃ n, 0 < n ∧ ∀ text : Bytes, text.length = n → ∃ zmem', ∀ fuel' text',
      ClientTcp.decodeMsg libs keys ⟨fuel', zmem', amem⟩ 1 1 body = .ok text' → text' = text := by
  obtain ⟨k, sameSize⟩ := Zlib.uncompress_rejected libs.zlib IsStream rejects body foreign ended
  have positive : 0 < body.length := List.length_pos_iff.mpr nonempty
  generalize total : body.length * 3 * 2 ^ k = n at sameSize
  have large : 48 ≤ n := by
    rw [← total]
    calc 48 ≤ body.length * 3 := by omega
      _ ≤ body.length * 3 * 2 ^ k := Nat.le_mul_of_pos_right _ (Nat.two_pow_pos k)
  have whole : n % 16 = 0 := by
    rw [← total, Nat.mul_assoc, Nat.mul_mod, blocks]
    simp
  refine ⟨n - 1, by omega, ?_⟩
  intro text long
  -- the block that the zero IV chains `text`, padded with a single octet, into
  have lengthPlain : (text ++ [1#8]).length = n := by
    rw [List.length_append, long]
    simp only [List.length_cons, List.length_nil]
    omega
  obtain ⟨cipher, chained⟩ :
      ∃ cipher, aesCryptCbc libs.aes keys.aes true iv1 (text ++ [1#8]) = some cipher := by
    rw [aesCryptCbc, if_neg (by rw [lengthPlain]; omega)]
    exact ⟨_, rfl⟩
  have lastOctet : (text ++ [1#8]).getD ((text ++ [1#8]).length - 1) 0 = 1#8 := by
    simp [List.getD_eq_getElem?_getD]
  obtain ⟨sameLength, decrypted⟩ := AES128Cipher.decrypt_cbc libs.aes keys.aes amem _ cipher
    (by simp) chained (by rw [lastOctet, lengthPlain]; simp; omega)
  rw [lastOctet, lengthPlain] at decrypted
  rw [lengthPlain] at sameLength
  obtain ⟨zmem', held⟩ := FreshMem.exists_bytes cipher
  refine ⟨zmem', ?_⟩
  intro fuel' text' returned
  obtain ⟨comd, uncompressed, returned⟩ := ClientTcp.decodeMsg_ok libs keys returned
  rw [if_neg (by decide)] at uncompressed
  rw [if_neg (by decide), sameSize _ _ _ uncompressed, ← sameLength, held, decrypted] at returned
  cases returned
  exact List.take_left' (by rw [long]; simp)

/-- Both layers: some contents of the fresh block make `decodeMsg` miss `data`. -/
theorem not_restores_both (IsStream : Bytes → Prop) (produces : Zlib.Produces libs.zlib IsStream)
    (rejects : Zlib.Rejects libs.zlib IsStream) (ordinary : ¬ (mt = 255 ∧ st = 255))
    (encoded : ClientTcp.encodeBody libs keys ctx mt st 1 1 data = .ok body)
    (foreign : ¬ IsStream body) : ¬ Restores libs keys 1 1 body data := by
  intro restored
  obtain ⟨stream, compressed, encoded⟩ := ClientTcp.encodeBody_ok libs keys encoded
  rw [if_neg (by decide)] at compressed
  rw [if_neg (by simp [ordinary])] at encoded
  have streamNonempty : stream ≠ [] := by
    rintro rfl
    cases encoded
    exact foreign (produces _ _ _ _ compressed)
  have lengthBody := AES128Cipher.length_encrypt_nonempty libs.aes keys.aes ctx.amem stream body
    streamNonempty encoded
  have nonempty : body ≠ [] := by
    rintro rfl
    rw [List.length_nil] at lengthBody
    omega
  obtain ⟨fuel, first⟩ := restored (fun _ => 0) (fun _ => 0)
  obtain ⟨out, uncompressed, _⟩ := ClientTcp.decodeMsg_ok libs keys first
  obtain ⟨n, positive, arbitrary⟩ := decodeMsg_both_layers libs keys body IsStream rejects
    (by omega) foreign nonempty ⟨fuel, _, out, uncompressed⟩ (fun _ => 0)
  obtain ⟨zmem0, zeros⟩ := arbitrary (List.replicate n 0) (by simp)
  obtain ⟨zmem1, ones⟩ := arbitrary (List.replicate n 1) (by simp)
  obtain ⟨fuel0, restored0⟩ := restored zmem0 (fun _ => 0)
  obtain ⟨fuel1, restored1⟩ := restored zmem1 (fun _ => 0)
  have same : List.replicate n (0 : Byte) = List.replicate n 1 :=
    (zeros _ _ restored0).symm.trans (ones _ _ restored1)
  obtain ⟨m, rfl⟩ : ∃ m, n = m + 1 := ⟨n - 1, by omega⟩
  exact absurd (List.cons.inj same).1 (by decide)

end Layers

/-- The body of an ordinary message is restored exactly when at most one of the
two layers was applied. The only thing asked of the ciphertext of a compressed
body is that it is not by accident a zlib stream itself. -/
theorem body_restored_iff (libs : Libs) (keys : Keys) (IsStream : Bytes → Prop)
    (undoes : Zlib.Undoes libs.zlib) (produces : Zlib.Produces libs.zlib IsStream)
    (rejects : Zlib.Rejects libs.zlib IsStream) (ctx : CallCtx) (msgid : CInt)
    (mt st compressType encryptType : Int) (data : Bytes) (sent : Sent) (head body : Bytes)
    (compressFlag : compressType = 0 ∨ compressType = 1)
    (encryptFlag : encryptType = 0 ∨ encryptType = 1) (ordinary : ¬ (mt = 255 ∧ st = 255))
    (run : ClientTcp.sendMsg libs keys ctx msgid mt st compressType encryptType data = .ok sent)
    (bufs : sent.bufs = [head, body])
    (foreign : compressType = 1 → encryptType = 1 → ¬ IsStream body) :
    Restores libs keys compressType encryptType body data ↔
      compressType = 0 ∨ encryptType = 0 := by
  have encoded := ClientTcp.encodeBody_of_sendMsg libs keys run bufs
  rcases compressFlag with rfl | rfl
  · simp only [true_or, iff_true]
    exact fun zmem amem => ⟨0, decodeMsg_plain libs keys ctx mt st data body encryptType encryptFlag
      ordinary encoded ⟨0, zmem, amem⟩⟩
  · rcases encryptFlag with rfl | rfl
    · simp only [or_true, iff_true]
      exact restores_unencrypted libs keys ctx mt st data body undoes encoded
    · refine ⟨fun restored => ?_, by simp⟩
      exact absurd restored (not_restores_both libs keys ctx mt st data body IsStream produces
        rejects ordinary encoded (foreign rfl rfl))

/-! ## A message of 1025 zero octets

`BlmClient::sendMsg` sends it with both layers. The tables below hold what zlib
and AES-128 under the key 00 01 .. 0f answer for the octets that occur. -/

def zeros : Bytes := List.replicate 1025 0

/-- What `::compress` makes of `zeros`. -/
def zerosStream : Bytes :=
  [0x78, 0x9c, 0x63, 0x60, 0x18, 0x05, 0xa3, 0x60, 0x14, 0x8c, 0x58, 0x00, 0x00, 0x04, 0x01, 0x00,
    0x01]

def sampleStream (x : Bytes) : Bytes := if x = zeros then zerosStream else 0x78 :: 0x01 :: x

def sampleContent (data : Bytes) : Option Bytes :=
  if data = zerosStream then some zeros
  else if data.take 2 = [0x78, 0x01] then some (data.drop 2) else none

def sampleZlib : ZlibLib where
  compress capacity x :=
    if (sampleStream x).length ≤ capacity then .ok (sampleStream x) else .bufError
  uncompress capacity data :=
    match sampleContent data with
    | some x => if x.length ≤ capacity then .ok x else .bufError
    | none => .error (-3)

def sampleSpec : ZlibSpec sampleZlib where
  stream := sampleStream
  content := sampleContent
  stream_ne_nil x := by
    unfold sampleStream
    split <;> simp [zerosStream]
  content_stream x := by
    unfold sampleStream sampleContent
    split
    next same => rw [if_pos rfl, same]
    next other =>
      have foreign : (0x78 : Byte) :: 0x01 :: x ≠ zerosStream := by simp [zerosStream]
      rw [if_neg foreign]
      simp
  compress_eq _ _ := rfl
  uncompress_content held capacity := by simp only [sampleZlib, held]
  uncompress_foreign foreign capacity out := by simp [sampleZlib, foreign]

def aesKey : Block :=
  ⟨[0x00, 0x01, 0x02, 0x03, 0x04, 0x05, 0x06, 0x07, 0x08, 0x09, 0x0a, 0x0b, 0x0c, 0x0d, 0x0e, 0x0f],
    rfl⟩

def firstPlain : Block :=
  ⟨[0x78, 0x9c, 0x63, 0x60, 0x18, 0x05, 0xa3, 0x60, 0x14, 0x8c, 0x58, 0x00, 0x00, 0x04, 0x01, 0x00],
    rfl⟩

def firstCipher : Block :=
  ⟨[0x17, 0x7c, 0xd2, 0x85, 0x8f, 0xa2, 0x18, 0x2b, 0xaa, 0xa7, 0x28, 0x55, 0x50, 0xf6, 0x56, 0x0d],
    rfl⟩

def secondPlain : Block :=
  ⟨[0x16, 0x73, 0xdd, 0x8a, 0x80, 0xad, 0x17, 0x24, 0xa5, 0xa8, 0x27, 0x5a, 0x5f, 0xf9, 0x59, 0x02],
    rfl⟩

def secondCipher : Block :=
  ⟨[0xc8, 0x05, 0xd6, 0x31, 0xf1, 0x9b, 0x5e, 0xd0, 0xe2, 0x7b, 0x3c, 0x82, 0x9a, 0x30, 0x52, 0x97],
    rfl⟩

/-- A permutation of blocks that takes each plaintext block above to its ciphertext. -/
def samplePerm : Equiv.Perm Block :=
  (Equiv.swap secondPlain secondCipher).trans (Equiv.swap firstPlain firstCipher)

def sampleLibs : Libs where
  zlib := sampleZlib
  aes := { enc := fun _ => samplePerm, dec := fun _ => samplePerm.symm, dec_enc := by simp }

def sampleKeys : Keys := { rc4 := rc4_key, aes := aesKey }

def sampleCtx : CallCtx := { fuel := 1, zmem := fun _ => 0, amem := fun _ => 0 }

def zerosBody : Bytes := firstCipher.val ++ secondCipher.val

theorem zeros_encoded : ClientTcp.encodeBody sampleLibs sampleKeys sampleCtx 1 2 1 1 zeros =
    .ok zerosBody := by
  decide +kernel

theorem zeros_sent : ∃ sent head,
    BlmClient.sendMsg sampleLibs (some sampleKeys) sampleCtx 0 1 2 zeros = .ok sent ∧
      ClientTcp.sendMsg sampleLibs sampleKeys sampleCtx 0 1 2 1 1 zeros = .ok sent ∧
      sent.bufs = [head, zerosBody] := by
  have long : 1024 < zeros.length := by
    rw [zeros, List.length_replicate]
    omega
  have run : ∃ sent head, ClientTcp.sendMsg sampleLibs sampleKeys sampleCtx 0 1 2 1 1 zeros =
      .ok sent ∧ sent.bufs = [head, zerosBody] := by
    rw [ClientTcp.sendMsg, if_neg (by decide), zeros_encoded]
    exact ⟨_, _, rfl, rfl⟩
  obtain ⟨sent, head, run, bufs⟩ := run
  refine ⟨sent, head, ?_, run, bufs⟩
  rw [BlmClient.sendMsg, if_pos long]
  exact run

/-- The receiver with the same keys gets another text when the output block that
`uncompress` leaves untouched holds the first ciphertext block over and over. -/
theorem zeros_not_restored :
    ¬ (∀ (libs : Libs) (keys : Keys) (IsStream : Bytes → Prop), Zlib.Undoes libs.zlib →
      Zlib.Produces libs.zlib IsStream → Zlib.Rejects libs.zlib IsStream →
      ∀ (ctx : CallCtx) (msgid : CInt) (mt st compressType encryptType : Int) (data : Bytes)
        (sent : Sent) (head body : Bytes), (compressType = 0 ∨ compressType = 1) →
        (encryptType = 0 ∨ encryptType = 1) → ¬ (mt = 255 ∧ st = 255) →
        ClientTcp.sendMsg libs keys ctx msgid mt st compressType encryptType data = .ok sent →
        sent.bufs = [head, body] → Restores libs keys compressType encryptType body data) := by
  intro claim
  obtain ⟨sent, head, _, run, bufs⟩ := zeros_sent
  have restored := claim sampleLibs sampleKeys _ sampleSpec.undoes sampleSpec.produces
    sampleSpec.rejects sampleCtx 0 1 2 1 1 zeros sent head zerosBody (by simp) (by simp) (by simp)
    run bufs
  obtain ⟨fuel, decoded⟩ := restored (fun i => firstCipher.val.getD (i % 16) 0) (fun _ => 0)
  cases fuel with
  | zero => cases decoded
  | succ fuel =>
    -- the first answer of `uncompress` is already the data error
    have first : ClientTcp.decodeMsg sampleLibs sampleKeys
        ⟨fuel + 1, fun i => firstCipher.val.getD (i % 16) 0, fun _ => 0⟩ (intToChar 1) (intToChar 1)
        zerosBody = ClientTcp.decodeMsg sampleLibs sampleKeys
        ⟨1, fun i => firstCipher.val.getD (i % 16) 0, fun _ => 0⟩ (intToChar 1) (intToChar 1)
        zerosBody := rfl
    rw [first] at decoded
    exact absurd decoded (by decide +kernel)

/-- The characterisation at that message: both flags set, so it is not restored. -/
theorem zeros_restored_iff :
    ∃ sent head, ClientTcp.sendMsg sampleLibs sampleKeys sampleCtx 0 1 2 1 1 zeros = .ok sent ∧
      sent.bufs = [head, zerosBody] ∧ ¬ Restores sampleLibs sampleKeys 1 1 zerosBody zeros := by
  obtain ⟨sent, head, _, run, bufs⟩ := zeros_sent
  refine ⟨sent, head, run, bufs, ?_⟩
  have characterised := body_restored_iff sampleLibs sampleKeys _ sampleSpec.undoes
    sampleSpec.produces sampleSpec.rejects sampleCtx 0 1 2 1 1 zeros sent head zerosBody (by simp)
    (by simp) (by simp) run bufs (by decide +kernel)
  rw [characterised]
  decide

end BlmLink.Guarantees.BodyRoundTrip
