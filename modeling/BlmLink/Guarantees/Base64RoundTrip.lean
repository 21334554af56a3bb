import BlmLink.Guarantees.FreshMemory
import BlmLink.Lib.Sextets

/-!
# `Base64` and the standard text

The loops of the library make the standard text of a string and give the string back. The
wrappers return that for two octets or more (`encode_decode_iff`). For none the library
returns before it sets the length, and for one octet four characters and a final zero do not
fit the block of four; the result is then what the block held before.

Lengths are natural numbers, so the sizes computed from them do not overflow.
-/
namespace BlmLink.Guarantees.Base64RoundTrip

open BlmLink.Lib BlmLink.Source FreshMemory

/-- The alphabet: `A`-`Z`, `a`-`z`, `0`-`9`, `+` and `/`. -/
def letter (v : Nat) : Byte := BitVec.ofNat 8 (letterCodes.getD v 0)

/-- The standard padded base64 text. -/
def standardText (x : Bytes) : Bytes := Sextets.text letter (chr '=') (x.map BitVec.toNat)

section encoding

theorem encChar_eq {v : Nat} (small : v < 64) : encChar v = letter v := by
  rw [encChar, Nat.mod_eq_of_lt small, enc_map_codes, letter, List.getD_eq_getElem?_getD,
    List.getElem?_map, List.getD_eq_getElem?_getD]
  have inside : v < letterCodes.length := small
  rw [List.getElem?_eq_getElem inside]
  rfl

theorem encChar_mod (v : Nat) : encChar v = letter (v % 64) := by
  rw [← encChar_eq (Nat.mod_lt v (by decide)), encChar, encChar, Nat.mod_mod]

theorem encodeGroups_eq (x : Bytes) : encodeGroups x = standardText x := by
  unfold standardText Sextets.text
  induction x using encodeGroups.induct with
  | case1 => rfl
  | case2 c1 =>
    have b1 := c1.isLt
    rw [List.map_singleton, List.flatMap_singleton, Sextets.groups_one b1, encodeGroups,
      encChar_eq (by omega), encChar_eq (by omega)]
    rfl
  | case3 c1 c2 =>
    have b1 := c1.isLt
    have b2 := c2.isLt
    rw [encodeGroups, encChar_eq (by omega), encChar_eq (by omega), encChar_eq (by omega)]
    simp only [List.map_cons, List.map_nil, List.flatMap_cons, List.flatMap_nil, List.append_nil,
      Sextets.groups_two b1 b2]
    rfl
  | case4 c1 c2 c3 src ih =>
    have b1 := c1.isLt
    have b2 := c2.isLt
    have b3 := c3.isLt
    rw [encodeGroups, encChar_eq (by omega), encChar_eq (by omega), encChar_eq (by omega),
      encChar_mod, ih]
    simp only [List.map_cons, List.flatMap_cons, ← List.append_assoc]
    rw [Sextets.groups_three b1 b2 b3]
    simp only [List.map_cons, Sextets.fill_cons_four]

end encoding

section decoding

theorem letter_value : ∀ v < 64, decVal (letter v) = v ∧ letter v ∈ base64_enc_map := by
  decide +kernel

theorem encChar_value (v : Nat) : decVal (encChar v) = v % 64 ∧ encChar v ∈ base64_enc_map := by
  rw [encChar_mod]
  exact letter_value _ (Nat.mod_lt v (by decide))

theorem break_not_letter {c : Byte} (among : c ∈ base64_enc_map) :
    ¬ (c = chr '\r' ∨ c = chr '\n') := by
  have value := (letter_decVal among).2
  rintro (rfl | rfl)
  · exact absurd value (by decide)
  · exact absurd value (by decide)

/-- The accumulator after one more character. -/
def shiftIn (x : BitVec 32) (v : Nat) : BitVec 32 := (x <<< 6) ||| BitVec.ofNat 32 v

theorem shiftIn_toNat (x : BitVec 32) {v : Nat} (small : v < 64) :
    (shiftIn x v).toNat = (x.toNat * 64 + v) % 2 ^ 32 := by
  have parted : x.toNat * 2 ^ 6 % 2 ^ 32 = (x.toNat % 2 ^ 26) <<< 6 := by
    rw [Nat.shiftLeft_eq]
    omega
  rw [shiftIn, BitVec.toNat_or, BitVec.toNat_shiftLeft, BitVec.toNat_ofNat,
    Nat.mod_eq_of_lt (show v < 2 ^ 32 by omega), Nat.shiftLeft_eq, parted,
    ← Nat.shiftLeft_add_eq_or_of_lt small, Nat.shiftLeft_eq]
  omega

theorem decodeLoop_letter {j n : Nat} (x : BitVec 32) (v : Nat) (src : Bytes) (more : n + 1 ≠ 4) :
    decodeLoop j n x (encChar v :: src) = decodeLoop j (n + 1) (shiftIn x (v % 64)) src := by
  obtain ⟨value, among⟩ := encChar_value v
  have small := Nat.mod_lt v (show 0 < 64 by decide)
  rw [decodeLoop, if_neg (break_not_letter among)]
  simp only [value, if_neg more, if_neg (Nat.ne_of_lt small), Nat.mod_mod]
  rfl

theorem decodeLoop_pad {j n : Nat} (x : BitVec 32) (src : Bytes) (more : n + 1 ≠ 4) :
    decodeLoop j n x (chr '=' :: src) = decodeLoop (j - 1) (n + 1) (shiftIn x 0) src := by
  rw [decodeLoop, if_neg (by decide), if_neg more]
  rfl

/-- The octets written after four characters. -/
def written (j : Nat) (x : BitVec 32) : Bytes :=
  (if 0 < j then [(x >>> 16).setWidth 8] else []) ++
    (if 1 < j then [(x >>> 8).setWidth 8] else []) ++ (if 2 < j then [x.setWidth 8] else [])

theorem decodeLoop_lastLetter {j : Nat} (x : BitVec 32) (v : Nat) (src : Bytes) :
    decodeLoop j 3 x (encChar v :: src) =
      written j (shiftIn x (v % 64)) ++ decodeLoop j 0 (shiftIn x (v % 64)) src := by
  obtain ⟨value, among⟩ := encChar_value v
  have small := Nat.mod_lt v (show 0 < 64 by decide)
  rw [decodeLoop, if_neg (break_not_letter among)]
  simp only [value, if_pos, if_neg (Nat.ne_of_lt small), Nat.mod_mod]
  rfl

theorem decodeLoop_lastPad {j : Nat} (x : BitVec 32) (src : Bytes) :
    decodeLoop j 3 x (chr '=' :: src) =
      written (j - 1) (shiftIn x 0) ++ decodeLoop (j - 1) 0 (shiftIn x 0) src := by
  rw [decodeLoop, if_neg (by decide), if_pos rfl]
  rfl

section quad

variable (x : BitVec 32) {a b c d : Nat}

/-- The accumulator after four characters; what was in it before is shifted out of the octets
that are written. -/
theorem quad_toNat (small : a < 64 ∧ b < 64 ∧ c < 64 ∧ d < 64) :
    (shiftIn (shiftIn (shiftIn (shiftIn x a) b) c) d).toNat =
      (x.toNat * 2 ^ 24 + a * 2 ^ 18 + b * 2 ^ 12 + c * 2 ^ 6 + d) % 2 ^ 32 := by
  rw [shiftIn_toNat _ small.2.2.2, shiftIn_toNat _ small.2.2.1, shiftIn_toNat _ small.2.1,
    shiftIn_toNat _ small.1]
  omega

theorem octet_eq {q : BitVec 32} {k : Nat} {o : Byte} (same : q.toNat / 2 ^ k % 2 ^ 8 = o.toNat) :
    (q >>> k).setWidth 8 = o := by
  apply BitVec.eq_of_toNat_eq
  rw [BitVec.toNat_setWidth, BitVec.toNat_ushiftRight, Nat.shiftRight_eq_div_pow, same]

/-- Four values whose bits are those of three octets. -/
theorem quad_octets (small : a < 64 ∧ b < 64 ∧ c < 64 ∧ d < 64) (c1 c2 c3 : Byte)
    (joined : a * 2 ^ 18 + b * 2 ^ 12 + c * 2 ^ 6 + d =
      c1.toNat * 2 ^ 16 + c2.toNat * 2 ^ 8 + c3.toNat) :
    written 3 (shiftIn (shiftIn (shiftIn (shiftIn x a) b) c) d) = [c1, c2, c3] := by
  have quad := quad_toNat x small
  have b1 := c1.isLt
  have b2 := c2.isLt
  have b3 := c3.isLt
  generalize shiftIn (shiftIn (shiftIn (shiftIn x a) b) c) d = q at quad
  have first : (q >>> 16).setWidth 8 = c1 := octet_eq (by omega)
  have second : (q >>> 8).setWidth 8 = c2 := octet_eq (by omega)
  have third : q.setWidth 8 = c3 := by
    have shifted : (q >>> 0).setWidth 8 = c3 := octet_eq (by omega)
    simpa using shifted
  simp [written, first, second, third]

end quad

/-- A group with padding writes the first octets of the whole group. -/
theorem written_eq {j : Nat} (few : j ≤ 3) (x : BitVec 32) : written j x = (written 3 x).take j := by
  match j, few with
  | 0, _ => rfl
  | 1, _ => rfl
  | 2, _ => rfl
  | 3, _ => rfl

theorem decodeLoop_encodeGroups (src : Bytes) (x : BitVec 32) :
    decodeLoop 3 0 x (encodeGroups src) = src := by
  induction src using encodeGroups.induct generalizing x with
  | case1 => rfl
  | case2 c1 =>
    have b1 := c1.isLt
    rw [encodeGroups, decodeLoop_letter _ _ _ (by decide), decodeLoop_letter _ _ _ (by decide),
      decodeLoop_pad _ _ (by decide), decodeLoop_lastPad, written_eq (by decide),
      quad_octets x (by omega) c1 0 0 (by simp; omega)]
    rfl
  | case3 c1 c2 =>
    have b1 := c1.isLt
    have b2 := c2.isLt
    rw [encodeGroups, decodeLoop_letter _ _ _ (by decide), decodeLoop_letter _ _ _ (by decide),
      decodeLoop_letter _ _ _ (by decide), decodeLoop_lastPad, written_eq (by decide),
      quad_octets x (by omega) c1 c2 0 (by simp; omega)]
    rfl
  | case4 c1 c2 c3 src ih =>
    have b1 := c1.isLt
    have b2 := c2.isLt
    have b3 := c3.isLt
    rw [encodeGroups, decodeLoop_letter _ _ _ (by decide), decodeLoop_letter _ _ _ (by decide),
      decodeLoop_letter _ _ _ (by decide), decodeLoop_lastLetter, ih,
      quad_octets x (by omega) c1 c2 c3 (by omega)]
    rfl

/-- The text is letters and at most two `=`. -/
theorem encodeGroups_shape (x : Bytes) :
    ∃ letters pads, encodeGroups x = letters ++ List.replicate pads (chr '=') ∧
      (∀ c ∈ letters, c ∈ base64_enc_map) ∧ pads ≤ 2 := by
  have among := fun v => (encChar_value v).2
  induction x using encodeGroups.induct with
  | case1 => exact ⟨[], 0, rfl, by simp, by decide⟩
  | case2 c1 => exact ⟨[_, _], 2, rfl, by simp [among], by decide⟩
  | case3 c1 c2 => exact ⟨[_, _, _], 1, rfl, by simp [among], by decide⟩
  | case4 c1 c2 c3 src ih =>
    obtain ⟨letters, pads, shape, alphabet, few⟩ := ih
    refine ⟨_ :: _ :: _ :: _ :: letters, pads, by rw [encodeGroups, shape]; rfl, ?_, few⟩
    simpa [among] using alphabet

theorem encodeGroups_noBreak {x : Bytes} {c : Byte} (member : c ∈ encodeGroups x) :
    ¬ (c = chr '\r' ∨ c = chr '\n') := by
  obtain ⟨letters, pads, shape, alphabet, _⟩ := encodeGroups_shape x
  rw [shape] at member
  rcases List.mem_append.mp member with letter | pad
  · exact break_not_letter (alphabet c letter)
  · rw [List.eq_of_mem_replicate pad]
    decide

theorem significant_encodeGroups (x : Bytes) : significant (encodeGroups x) = encodeGroups x := by
  refine List.filter_eq_self.mpr fun c member => ?_
  have other := encodeGroups_noBreak member
  simpa [not_or] using other

theorem paired_of_noBreak {data : Bytes} (other : ∀ c ∈ data, c ≠ chr '\r') : Paired data := by
  induction data with
  | nil => trivial
  | cons c data ih =>
    exact ⟨fun cr => absurd cr (other c List.mem_cons_self),
      ih fun c member => other c (List.mem_cons_of_mem _ member)⟩

/-- `base64_decode` reads the text as a whole, and its block is large enough. -/
theorem base64_decode_encodeGroups {x : Bytes} (present : x ≠ []) :
    base64_decode ((encodeGroups x).length + 2) (encodeGroups x) = ⟨0, x.length, x⟩ := by
  obtain ⟨letters, pads, shape, alphabet, few⟩ := encodeGroups_shape x
  have paired : Paired (encodeGroups x) :=
    paired_of_noBreak fun c member cr => encodeGroups_noBreak member (.inl cr)
  have padded : Padded 0 (significant (encodeGroups x)) := by
    rw [significant_encodeGroups]
    exact ⟨letters, pads, shape, alphabet, by omega, by simp⟩
  have scanned := (scan_iff (encodeGroups x) 0 0 _ (by omega)).mpr ⟨⟨paired, padded⟩, rfl⟩
  rw [significant_encodeGroups, Nat.zero_add] at scanned
  have nonzero : (encodeGroups x).length ≠ 0 := by
    intro zero
    have decoded := decodeLoop_encodeGroups x 0
    rw [List.eq_nil_of_length_eq_zero zero] at decoded
    exact present decoded.symm
  obtain ⟨n, count⟩ := Nat.exists_eq_succ_of_ne_zero nonzero
  unfold base64_decode
  rw [scanned, count]
  simp only [decodeLoop_encodeGroups]
  exact if_neg (by omega)

end decoding

section wrappers

theorem base64_encode_two {x : Bytes} (two : 2 ≤ x.length) :
    base64_encode (x.length * 2 + 2) x = ⟨0, (encodeGroups x).length, encodeGroups x ++ [0]⟩ := by
  have fits := encodedLength_le two
  unfold base64_encode
  rw [if_neg (by omega), if_neg (by omega)]

/-- What `Base64` should do with a string: encode it to the standard text, give it back, and
call the library with blocks that are large enough. -/
structure RoundTrips (x : Bytes) : Prop where
  encoded : ∀ mem beyond, Base64.encode mem beyond x = standardText x
  decoded : ∀ mem beyond mem' beyond',
    Base64.decode mem' beyond' (Base64.encode mem beyond x) = x
  encodeFits : (base64_encode (x.length * 2 + 2) x).ret ≠ base64BufferTooSmall
  decodeFits : ∀ mem beyond, (base64_decode ((Base64.encode mem beyond x).length + 2)
    (Base64.encode mem beyond x)).ret ≠ base64BufferTooSmall

theorem roundTrips_two {x : Bytes} (two : 2 ≤ x.length) : RoundTrips x := by
  have present : x ≠ [] := by
    rintro rfl
    exact absurd two (by decide)
  have encoded : ∀ mem beyond, Base64.encode mem beyond x = encodeGroups x := by
    intro mem beyond
    rw [Base64.encode, base64_encode_two two]
    exact result_written rfl rfl mem beyond
  have called := base64_decode_encodeGroups present
  have success : (0 : Int) ≠ base64BufferTooSmall := by decide
  refine ⟨?_, ?_, ?_, ?_⟩
  · intro mem beyond
    rw [encoded, encodeGroups_eq]
  · intro mem beyond mem' beyond'
    rw [encoded, Base64.decode, called]
    exact result_written (List.append_nil x).symm rfl mem' beyond'
  · rw [base64_encode_two two]
    exact success
  · intro mem beyond
    rw [encoded, called]
    exact success

/-- The result of a shorter string depends on what the block held before. -/
theorem two_of_roundTrips {x : Bytes} (roundTrips : RoundTrips x) : 2 ≤ x.length := by
  rw [← encode_unread_iff]
  intro beyond mem mem'
  simp only [roundTrips.encoded]

end wrappers

end BlmLink.Guarantees.Base64RoundTrip
