/-
  RegexText/Proofs/Text/Utf8.lean
  ===============================
  **Exactly what was encoded is decoded.**

  A character is written as a lead byte and up to three continuation bytes of six
  bits each.  What the decoder asks of them beyond their ranges, in the byte behind
  an extreme lead, rules out forms that are longer than necessary, surrogates, and
  numbers that are too large.  No character is any of these.
-/
import Mathlib.Tactic.SplitIfs
import RegexText.Text.Utf8

namespace RegexText.Text

/-! ### Lists of bytes -/

theorem toList_loop (bytes : ByteArray) (i : Nat) (read : List UInt8) :
    ByteArray.toList.loop bytes i read = read.reverse ++ bytes.data.toList.drop i := by
  fun_induction ByteArray.toList.loop bytes i read with
  | case1 i read hi ih =>
    have hlength : i < bytes.data.toList.length := by simpa using hi
    rw [ih, List.drop_eq_getElem_cons hlength]
    simp [ByteArray.get!, hi]
  | case2 i read hi =>
    have hlength : bytes.data.toList.length ≤ i := by simpa using hi
    rw [List.drop_eq_nil_of_le hlength, List.append_nil]

/-- The bytes of a text are those of its characters, one after the other. -/
theorem toList_toUTF8 (text : String) :
    text.toUTF8.toList = text.toList.flatMap String.utf8EncodeChar := by
  conv => lhs; rw [← @String.ofList_toList text]
  rw [String.toUTF8_eq_toByteArray, String.toByteArray_ofList, List.utf8Encode, ByteArray.toList,
    toList_loop, List.data_toByteArray]
  rfl

/-! ### Single bytes -/

section Byte

variable {n : Nat} {a b : UInt8}

theorem toNat_ofNat (hn : n < 256) : (UInt8.ofNat n).toNat = n := by
  rw [UInt8.toNat_ofNat', Nat.mod_eq_of_lt hn]

theorem ofNat_eq_iff (hn : n < 256) : UInt8.ofNat n = b ↔ n = b.toNat := by
  rw [← UInt8.toNat_inj, toNat_ofNat hn]

theorem between_iff (low high : UInt8) :
    (low ≤ b && b ≤ high) = true ↔ low.toNat ≤ b.toNat ∧ b.toNat ≤ high.toNat := by
  rw [Bool.and_eq_true, decide_eq_true_eq, decide_eq_true_eq, UInt8.le_iff_toNat_le,
    UInt8.le_iff_toNat_le]

theorem isContinuation_iff : isContinuation b = true ↔ 128 ≤ b.toNat ∧ b.toNat ≤ 191 :=
  between_iff 0x80 0xBF

theorem leadsTwo_iff : leadsTwo b = true ↔ 0xC2 ≤ b.toNat ∧ b.toNat ≤ 0xDF :=
  between_iff 0xC2 0xDF

theorem leadsThree_iff : leadsThree b = true ↔ 0xE0 ≤ b.toNat ∧ b.toNat ≤ 0xEF :=
  between_iff 0xE0 0xEF

theorem leadsFour_iff : leadsFour b = true ↔ 0xF0 ≤ b.toNat ∧ b.toNat ≤ 0xF4 :=
  between_iff 0xF0 0xF4

/-- A second byte is a continuation byte, and it is in the narrower range behind an extreme
    lead. -/
theorem secondFits_iff :
    secondFits a b = true ↔
      (128 ≤ b.toNat ∧ b.toNat ≤ 191) ∧ (a.toNat = 0xE0 → 160 ≤ b.toNat) ∧
        (a.toNat = 0xED → b.toNat < 160) ∧ (a.toNat = 0xF0 → 144 ≤ b.toNat) ∧
        (a.toNat = 0xF4 → b.toNat < 144) := by
  have hthree : (0xA0 ≤ b && b ≤ 0xBF) = true ↔ 160 ≤ b.toNat ∧ b.toNat ≤ 191 := between_iff _ _
  have hsurrogate : (0x80 ≤ b && b ≤ 0x9F) = true ↔ 128 ≤ b.toNat ∧ b.toNat ≤ 159 :=
    between_iff _ _
  have hfour : (0x90 ≤ b && b ≤ 0xBF) = true ↔ 144 ≤ b.toNat ∧ b.toNat ≤ 191 := between_iff _ _
  have hlast : (0x80 ≤ b && b ≤ 0x8F) = true ↔ 128 ≤ b.toNat ∧ b.toNat ≤ 143 := between_iff _ _
  unfold secondFits
  simp only [← UInt8.toNat_inj]
  change (if a.toNat = 224 then _ else if a.toNat = 237 then _ else if a.toNat = 240 then _
    else if a.toNat = 244 then _ else _) = true ↔ _
  split_ifs
  · rw [hthree]
    omega
  · rw [hsurrogate]
    omega
  · rw [hfour]
    omega
  · rw [hlast]
    omega
  · rw [isContinuation_iff]
    omega

theorem isContinuation_ofNat (n : Nat) : isContinuation (UInt8.ofNat (n % 64 + 128)) = true := by
  rw [isContinuation_iff, toNat_ofNat (by omega)]
  omega

theorem payload_ofNat (n : Nat) : payload (UInt8.ofNat (n % 64 + 128)) = n % 64 := by
  rw [payload, toNat_ofNat (by omega)]
  omega

end Byte

/-! ### Characters -/

section Character

variable {n : Nat}

theorem not_lt_of_le {a : UInt8} (h : 128 ≤ a.toNat) : ¬ a < 0x80 := by
  rw [UInt8.lt_iff_toNat_lt]
  exact Nat.not_lt.2 h

theorem decodeFrom_one (hhigh : n < 0x80) (index : Nat) (rest : List UInt8) :
    decodeFrom index (UInt8.ofNat n :: rest) =
      (decodeFrom (index + 1) rest).map (Char.ofNat n :: ·) := by
  have hvalue : (UInt8.ofNat n).toNat = n := toNat_ofNat (by omega)
  have hbyte : UInt8.ofNat n < 0x80 := by
    rw [UInt8.lt_iff_toNat_lt, hvalue]
    exact hhigh
  rw [decodeFrom.eq_def]
  simp only [if_pos hbyte, hvalue]
  rfl

theorem decodeFrom_two (hlow : 0x80 ≤ n) (hhigh : n < 0x800) (index : Nat) (rest : List UInt8) :
    decodeFrom index (UInt8.ofNat (n / 64 % 32 + 192) :: UInt8.ofNat (n % 64 + 128) :: rest) =
      (decodeFrom (index + 2) rest).map (Char.ofNat n :: ·) := by
  generalize hlead : UInt8.ofNat (n / 64 % 32 + 192) = a
  have hvalue : a.toNat = n / 64 % 32 + 192 := by rw [← hlead, toNat_ofNat (by omega)]
  have hbyte : ¬ a < 0x80 := not_lt_of_le (by omega)
  have htwo : leadsTwo a = true := leadsTwo_iff.2 (by omega)
  have hnumber : a.toNat % 32 * 64 + n % 64 = n := by omega
  rw [decodeFrom.eq_def]
  simp only [if_neg hbyte, htwo, isContinuation_ofNat, payload_ofNat, hnumber]
  rfl

theorem decodeFrom_three (hlow : 0x800 ≤ n) (hhigh : n < 0x10000)
    (hsurrogate : n < 0xD800 ∨ 0xDFFF < n) (index : Nat) (rest : List UInt8) :
    decodeFrom index (UInt8.ofNat (n / 4096 % 16 + 224) :: UInt8.ofNat (n / 64 % 64 + 128) ::
        UInt8.ofNat (n % 64 + 128) :: rest) =
      (decodeFrom (index + 3) rest).map (Char.ofNat n :: ·) := by
  generalize hlead : UInt8.ofNat (n / 4096 % 16 + 224) = a
  have hvalue : a.toNat = n / 4096 % 16 + 224 := by rw [← hlead, toNat_ofNat (by omega)]
  have hbyte : ¬ a < 0x80 := not_lt_of_le (by omega)
  have htwo : leadsTwo a = false := Bool.eq_false_iff.2 (mt leadsTwo_iff.1 (by omega))
  have hthree : leadsThree a = true := leadsThree_iff.2 (by omega)
  have hsecond : secondFits a (UInt8.ofNat (n / 64 % 64 + 128)) = true := by
    rw [secondFits_iff, toNat_ofNat (by omega)]
    omega
  have hnumber : (a.toNat % 16 * 64 + n / 64 % 64) * 64 + n % 64 = n := by omega
  rw [decodeFrom.eq_def]
  simp only [if_neg hbyte, htwo, hthree, hsecond, isContinuation_ofNat, payload_ofNat, hnumber]
  rfl

theorem decodeFrom_four (hlow : 0x10000 ≤ n) (hhigh : n < 0x110000) (index : Nat)
    (rest : List UInt8) :
    decodeFrom index (UInt8.ofNat (n / 262144 % 8 + 240) :: UInt8.ofNat (n / 4096 % 64 + 128) ::
        UInt8.ofNat (n / 64 % 64 + 128) :: UInt8.ofNat (n % 64 + 128) :: rest) =
      (decodeFrom (index + 4) rest).map (Char.ofNat n :: ·) := by
  generalize hlead : UInt8.ofNat (n / 262144 % 8 + 240) = a
  have hvalue : a.toNat = n / 262144 % 8 + 240 := by rw [← hlead, toNat_ofNat (by omega)]
  have hbyte : ¬ a < 0x80 := not_lt_of_le (by omega)
  have htwo : leadsTwo a = false := Bool.eq_false_iff.2 (mt leadsTwo_iff.1 (by omega))
  have hthree : leadsThree a = false := Bool.eq_false_iff.2 (mt leadsThree_iff.1 (by omega))
  have hfour : leadsFour a = true := leadsFour_iff.2 (by omega)
  have hsecond : secondFits a (UInt8.ofNat (n / 4096 % 64 + 128)) = true := by
    rw [secondFits_iff, toNat_ofNat (by omega)]
    omega
  have hnumber : ((a.toNat % 8 * 64 + n / 4096 % 64) * 64 + n / 64 % 64) * 64 + n % 64 = n := by
    omega
  rw [decodeFrom.eq_def]
  simp only [if_neg hbyte, htwo, hthree, hfour, hsecond, isContinuation_ofNat, payload_ofNat,
    hnumber]
  rfl

/-- A character is decoded from its bytes, whatever follows them. -/
theorem decodeFrom_char (c : Char) (index : Nat) (rest : List UInt8) :
    decodeFrom index (String.utf8EncodeChar c ++ rest) =
      (decodeFrom (index + (String.utf8EncodeChar c).length) rest).map (c :: ·) := by
  have hvalid : c.toNat < 0xD800 ∨ 0xDFFF < c.toNat ∧ c.toNat < 0x110000 := c.valid
  have hchar : Char.ofNat c.val.toNat = c := Char.ofNat_toNat c
  unfold Char.toNat at hvalid
  unfold String.utf8EncodeChar
  simp only
  split_ifs with hone htwo hthree
  · rw [List.singleton_append, decodeFrom_one (by omega), hchar]
    rfl
  · rw [List.cons_append, List.singleton_append, decodeFrom_two (by omega) (by omega), hchar]
    rfl
  · rw [List.cons_append, List.cons_append, List.singleton_append,
      decodeFrom_three (by omega) (by omega) (by omega), hchar]
    rfl
  · rw [List.cons_append, List.cons_append, List.cons_append, List.singleton_append,
      decodeFrom_four (by omega) (by omega), hchar]
    rfl

theorem decodeFrom_flatMap (cs : List Char) (index : Nat) :
    decodeFrom index (cs.flatMap String.utf8EncodeChar) = .ok cs := by
  induction cs generalizing index with
  | nil => rfl
  | cons c cs ih =>
    rw [List.flatMap_cons, decodeFrom_char, ih]
    rfl

/-- **Decoding gives back what was encoded.** -/
theorem decodeUtf8_toUTF8 (text : String) : decodeUtf8 text.toUTF8.toList = .ok text := by
  rw [decodeUtf8, toList_toUTF8, decodeFrom_flatMap, Except.map, String.ofList_toList]

end Character

/-! ### What is accepted -/

section Accepted

variable {a b c d : UInt8} {n : Nat}

theorem toNat_val_ofNat (h : n.isValidChar) : (Char.ofNat n).val.toNat = n := by
  have hchar : Char.ofNat n = Char.ofNatAux n h := dif_pos h
  rw [hchar]
  rfl

theorem encode_one (ha : a < 0x80) : String.utf8EncodeChar (Char.ofNat a.toNat) = [a] := by
  have hlow : a.toNat < 128 := UInt8.lt_iff_toNat_lt.1 ha
  have hvalue := toNat_val_ofNat (n := a.toNat) (.inl (by omega))
  unfold String.utf8EncodeChar
  simp only [hvalue]
  rw [if_pos (by omega)]
  simp

theorem encode_two (ha : leadsTwo a = true) (hb : isContinuation b = true) :
    String.utf8EncodeChar (Char.ofNat (a.toNat % 32 * 64 + payload b)) = [a, b] := by
  have hlead := leadsTwo_iff.1 ha
  have hsecond := isContinuation_iff.1 hb
  unfold payload
  have hvalue := toNat_val_ofNat (n := a.toNat % 32 * 64 + b.toNat % 64) (.inl (by omega))
  unfold String.utf8EncodeChar
  simp only [hvalue]
  rw [if_neg (by omega), if_pos (by omega)]
  have hfirst : UInt8.ofNat ((a.toNat % 32 * 64 + b.toNat % 64) / 64 % 32 + 192) = a :=
    (ofNat_eq_iff (by omega)).2 (by omega)
  have hlast : UInt8.ofNat ((a.toNat % 32 * 64 + b.toNat % 64) % 64 + 128) = b :=
    (ofNat_eq_iff (by omega)).2 (by omega)
  rw [hfirst, hlast]

theorem encode_three (ha : leadsThree a = true) (hb : secondFits a b = true)
    (hc : isContinuation c = true) :
    String.utf8EncodeChar (Char.ofNat ((a.toNat % 16 * 64 + payload b) * 64 + payload c)) =
      [a, b, c] := by
  have hlead := leadsThree_iff.1 ha
  have hsecond := secondFits_iff.1 hb
  have hthird := isContinuation_iff.1 hc
  unfold payload
  generalize hn : (a.toNat % 16 * 64 + b.toNat % 64) * 64 + c.toNat % 64 = n
  have hvalid : n < 0xD800 ∨ 0xDFFF < n ∧ n < 0x110000 := by omega
  unfold String.utf8EncodeChar
  simp only [toNat_val_ofNat hvalid]
  rw [if_neg (by omega), if_neg (by omega), if_pos (by omega)]
  have hfirst : UInt8.ofNat (n / 4096 % 16 + 224) = a := (ofNat_eq_iff (by omega)).2 (by omega)
  have hmiddle : UInt8.ofNat (n / 64 % 64 + 128) = b := (ofNat_eq_iff (by omega)).2 (by omega)
  have hlast : UInt8.ofNat (n % 64 + 128) = c := (ofNat_eq_iff (by omega)).2 (by omega)
  rw [hfirst, hmiddle, hlast]

theorem encode_four (ha : leadsFour a = true) (hb : secondFits a b = true)
    (hc : isContinuation c = true) (hd : isContinuation d = true) :
    String.utf8EncodeChar
        (Char.ofNat (((a.toNat % 8 * 64 + payload b) * 64 + payload c) * 64 + payload d)) =
      [a, b, c, d] := by
  have hlead := leadsFour_iff.1 ha
  have hsecond := secondFits_iff.1 hb
  have hthird := isContinuation_iff.1 hc
  have hfourth := isContinuation_iff.1 hd
  unfold payload
  generalize hn :
    ((a.toNat % 8 * 64 + b.toNat % 64) * 64 + c.toNat % 64) * 64 + d.toNat % 64 = n
  have hvalid : n < 0xD800 ∨ 0xDFFF < n ∧ n < 0x110000 := by omega
  unfold String.utf8EncodeChar
  simp only [toNat_val_ofNat hvalid]
  rw [if_neg (by omega), if_neg (by omega), if_neg (by omega)]
  have hfirst : UInt8.ofNat (n / 262144 % 8 + 240) = a := (ofNat_eq_iff (by omega)).2 (by omega)
  have hnext : UInt8.ofNat (n / 4096 % 64 + 128) = b := (ofNat_eq_iff (by omega)).2 (by omega)
  have hmiddle : UInt8.ofNat (n / 64 % 64 + 128) = c := (ofNat_eq_iff (by omega)).2 (by omega)
  have hlast : UInt8.ofNat (n % 64 + 128) = d := (ofNat_eq_iff (by omega)).2 (by omega)
  rw [hfirst, hnext, hmiddle, hlast]

/-- One more character is accepted in front of what is accepted. -/
theorem eq_flatMap_cons {first : Char} {front rest bytes : List UInt8} {cs : List Char}
    {decoded : Except Utf8Refusal (List Char)}
    (hfirst : String.utf8EncodeChar first = front) (hbytes : bytes = front ++ rest)
    (ih : ∀ later, decoded = .ok later → rest = later.flatMap String.utf8EncodeChar)
    (h : (do let later ← decoded; return first :: later) = Except.ok cs) :
    bytes = cs.flatMap String.utf8EncodeChar := by
  cases decoded with
  | error refusal => cases h
  | ok later =>
    cases h
    rw [List.flatMap_cons, hfirst, hbytes, ih later rfl]

theorem eq_flatMap_of_decodeFrom {bytes : List UInt8} {cs : List Char} {index : Nat}
    (h : decodeFrom index bytes = .ok cs) : bytes = cs.flatMap String.utf8EncodeChar := by
  fun_induction decodeFrom index bytes generalizing cs with
  | case1 =>
    cases h
    rfl
  | case2 index a rest ha ih => exact eq_flatMap_cons (encode_one ha) rfl (fun _ => ih) h
  | case5 index a hone ha b rest hb ih =>
    exact eq_flatMap_cons (encode_two ha (by simpa using hb)) rfl (fun _ => ih) h
  | case11 index a hone htwo ha b c rest hb hc ih =>
    have hfirst := encode_three ha (by simpa using hb) (by simpa using hc)
    exact eq_flatMap_cons hfirst rfl (fun _ => ih) h
  | case21 index a hone htwo hthree ha b c d rest hb hc hd ih =>
    have hfirst := encode_four ha (by simpa using hb) (by simpa using hc) (by simpa using hd)
    exact eq_flatMap_cons hfirst rfl (fun _ => ih) h
  | _ => cases h

/-- **Exactly the encodings of texts are accepted.** -/
theorem decodeUtf8_eq_ok_iff {bytes : List UInt8} {text : String} :
    decodeUtf8 bytes = .ok text ↔ bytes = text.toUTF8.toList := by
  constructor
  · intro h
    rw [decodeUtf8] at h
    cases hdecoded : decodeFrom 0 bytes with
    | error refusal =>
      rw [hdecoded] at h
      cases h
    | ok cs =>
      rw [hdecoded] at h
      cases h
      rw [toList_toUTF8, String.toList_ofList]
      exact eq_flatMap_of_decodeFrom hdecoded
  · rintro rfl
    exact decodeUtf8_toUTF8 text

end Accepted

end RegexText.Text
