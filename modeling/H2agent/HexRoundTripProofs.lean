import H2agent.DataPartProofs

/-! # Hexadecimal strings there and back

    `asHexString` masks the two halves of a signed `char`; `fromHexString` skips the `0x` and
    takes two characters at a time.  They are inverse to each other as far as the decoder sees
    its input: its loop ends at an `int`, and the encoding of `2^30 - 1` bytes has `2^31`
    characters already, of which it sees none.

    * `asHexString_masked`: the masked halves are those of the byte, whatever its sign;
    * `decode_encode_iff`, `encode_decode_iff`: the two directions;
    * `hex_round_trips_iff`: the lengths for which both hold. -/

namespace H2HexRoundTrip

open CppText H2Convert H2DataPart H2Hex H2Transformation

/-! ## Bytes and digits -/

/-- A text with one byte to a character. -/
structure ByteString where
  text : String
  bytes : ∀ c ∈ text.toList, c.toNat < 256

/-- The hexadecimal digits in lower case. -/
def lowerDigits : List Char := "0123456789abcdef".toList

/-- An even number of them. -/
structure LowerHex where
  text : String
  even : text.length % 2 = 0
  lower : ∀ c ∈ text.toList, c ∈ lowerDigits

theorem lowerDigits_subset {c : Char} (hc : c ∈ lowerDigits) : c ∈ digits := by
  have hall : lowerDigits.all (digits.contains ·) = true := by decide
  exact List.contains_iff_mem.mp (List.all_eq_true.mp hall c hc)

/-- They spell themselves. -/
theorem LowerHex.spells (h : LowerHex) : Spells h.text.toList h.text.toList :=
  ⟨.inl rfl, by rw [String.length_toList]; exact h.even,
    fun c hc => lowerDigits_subset (h.lower c hc)⟩

/-! ## The encoder -/

/-- A `char`, which has a sign, as an `int`. -/
def signedChar (c : Char) : BitVec 32 := (BitVec.ofNat 8 c.toNat).signExtend 32

/-- `(c & 0xf0) >> 4` -/
def highHalf (c : Char) : BitVec 32 := (signedChar c &&& 0xf0#32).sshiftRight 4

/-- `(c & 0x0f)` -/
def lowHalf (c : Char) : BitVec 32 := signedChar c &&& 0x0f#32

/-- The character appended for a half. -/
def appendedDigit (byte : BitVec 32) : Char :=
  if 0 ≤ byte.toInt ∧ byte.toInt ≤ 9 then Char.ofNat (byte.toInt + 48).toNat
  else Char.ofNat (byte.toInt - 10 + 97).toNat

theorem masked_byte {n : Nat} (h : n < 256) :
    [appendedDigit (highHalf (Char.ofNat n)), appendedDigit (lowHalf (Char.ofNat n))]
      = [hexDigit (n / 16 % 16), hexDigit (n % 16)] := by
  revert n
  decide +kernel

/-- The masks leave the halves of the byte, also of one above `0x7f`. -/
theorem asHexString_masked (s : ByteString) :
    (asHexString s.text).2 = String.ofList ('0' :: 'x' :: s.text.toList.flatMap
      fun c => [appendedDigit (highHalf c), appendedDigit (lowHalf c)]) := by
  have hsame : s.text.toList.flatMap
      (fun c => [appendedDigit (highHalf c), appendedDigit (lowHalf c)])
        = hexDigits s.text.toList := by
    refine List.flatMap_congr fun c hc => ?_
    have hbyte := masked_byte (s.bytes c hc)
    rwa [Char.ofNat_toNat] at hbyte
  rw [hsame]
  rfl

/-! ## There and back -/

/-- **BYTES**: their encoding is decoded to them, as far as all of it is seen. -/
theorem decode_encode_iff (s : ByteString) (output : String) :
    fromHexString (asHexString s.text).2 output = (true, s.text)
      ↔ s.text.length < 1073741823 := by
  have hspells := asHexString_spells s.text
  have hlength := length_asHexString s.text
  constructor
  · intro h
    -- with the mark the encoding has 2 * length + 2 characters: some would be missing
    by_contra hlong
    have hlt := length_fromHexString_lt output hspells (by omega)
    rw [h, length_pairsOf, length_hexDigits, String.length_toList] at hlt
    dsimp only at hlt
    omega
  · intro h
    rw [fromHexString_of_spells output hspells (by omega), appended_pairs_hexDigits s.bytes,
      String.ofList_toList]

/-- A pair of lower-case digits is the encoding of its byte. -/
theorem hexDigits_appended {hi lo : Char} (hhi : hi ∈ lowerDigits) (hlo : lo ∈ lowerDigits) :
    hexDigits [appended (hi, lo)] = [hi, lo] := by
  have hall : lowerDigits.all (fun hi => lowerDigits.all
      (fun lo => hexDigits [appended (hi, lo)] == [hi, lo])) = true := by
    decide +kernel
  exact eq_of_beq (List.all_eq_true.mp (List.all_eq_true.mp hall hi hhi) lo hlo)

theorem hexDigits_pairs {ds : List Char} (heven : ds.length % 2 = 0)
    (hlower : ∀ c ∈ ds, c ∈ lowerDigits) : hexDigits ((pairsOf ds).map appended) = ds := by
  -- two characters at a time, as the decoder takes them
  induction ds using pairsOf.induct with
  | case1 hi lo rest ih =>
      simp only [List.length_cons] at heven
      have hpair := hexDigits_appended (hlower hi (by simp)) (hlower lo (by simp))
      have hrest := ih (by omega) (fun c hc => hlower c (by simp [hc]))
      calc hexDigits ((pairsOf (hi :: lo :: rest)).map appended)
          = hexDigits [appended (hi, lo)] ++ hexDigits ((pairsOf rest).map appended) := rfl
        _ = hi :: lo :: rest := by rw [hpair, hrest]; rfl
  | case2 ds hshort =>
      rcases ds with _ | ⟨a, _ | ⟨b, rest⟩⟩
      · rfl
      · simp at heven
      · exact absurd rfl (hshort a b rest)

/-- **DIGITS**: they are decoded, and the bytes encoded to them behind the mark, as far as all
    of them are seen. -/
theorem encode_decode_iff (h : LowerHex) (output : String) :
    ∃ decoded, fromHexString h.text output = (true, decoded)
      ∧ ((asHexString decoded).2 = "0x" ++ h.text ↔ h.text.length < 2147483648) := by
  refine ⟨_, fromHexString_seen output h.spells, ?_⟩
  constructor
  · intro hback
    by_contra hlong
    have hlt := length_fromHexString_lt output h.spells (Nat.le_of_not_lt hlong)
    rw [fromHexString_seen output h.spells, length_pairsOf, String.length_toList] at hlt
    have hlength := congrArg String.length hback
    rw [length_asHexString, String.length_append, show "0x".length = 2 from rfl] at hlength
    dsimp only at hlt
    omega
  · intro hshort
    have hseen := fromHexString_of_spells output h.spells hshort
    rw [fromHexString_seen output h.spells] at hseen
    rw [(Prod.mk.inj hseen).2]
    apply String.toList_inj.mp
    have hpairs := hexDigits_pairs (String.length_toList ▸ h.even) h.lower
    rw [asHexString, String.toList_ofList, String.toList_ofList, String.toList_append]
    exact congrArg ('0' :: 'x' :: ·) hpairs

/-- **ROUND TRIPS**: bytes come back from their encoding exactly when they are fewer than
    `2^30 - 1`, and lower-case digits from the bytes they are decoded to exactly when they are
    fewer than `2^31`. -/
theorem hex_round_trips_iff (s : ByteString) (h : LowerHex) (output : String) :
    (fromHexString (asHexString s.text).2 output = (true, s.text)
        ↔ s.text.length < 1073741823)
      ∧ ∃ decoded, fromHexString h.text output = (true, decoded)
        ∧ ((asHexString decoded).2 = "0x" ++ h.text ↔ h.text.length < 2147483648) :=
  ⟨decode_encode_iff s output, encode_decode_iff h output⟩

/-- The letter `a`, some times. -/
def letters (n : Nat) : ByteString where
  text := String.ofList (List.replicate n 'a')
  bytes := by
    intro c hc
    rw [String.toList_ofList] at hc
    rw [List.eq_of_mem_replicate hc]
    decide

theorem length_letters (n : Nat) : (letters n).text.length = n := by
  rw [letters, String.length_ofList, List.length_replicate]

/-- When the letter stands there `2^30 - 1` times, the text is encoded and decoded without
    complaint, and nothing is left of it. -/
theorem letters_lost :
    fromHexString (asHexString (letters 1073741823).text).2 "" = (true, "")
      ∧ fromHexString (asHexString (letters 1073741823).text).2 ""
        ≠ (true, (letters 1073741823).text) := by
  have hlength := length_letters 1073741823
  generalize letters 1073741823 = s at hlength ⊢
  have hhex : (asHexString s.text).2.toList.length = 2147483648 := by
    rw [String.length_toList, length_asHexString, hlength]
  have hend : loopEnd 2147483648 = 0 := rfl
  have hseen : seenOf (asHexString s.text).2.toList = [] := by
    unfold seenOf
    rw [hhex, hend, List.take_zero, List.drop_nil, ite_self]
  have hempty : fromHexString (asHexString s.text).2 "" = (true, "") := by
    rw [fromHexString_seen "" (asHexString_spells _), hseen]
    rfl
  refine ⟨hempty, fun h => ?_⟩
  rw [hempty] at h
  rw [← (Prod.mk.inj h).2] at hlength
  cases hlength

end H2HexRoundTrip
