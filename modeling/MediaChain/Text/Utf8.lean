/-!
# Bytes and text

`Utf8.encode` writes a text as bytes and `Utf8.decode?` reads exactly what it writes
(`decode?_eq_some_iff`). `Utf8.lossy` reads any bytes: what is no part of a character becomes
U+FFFD, and text that was written by `encode` is read back unchanged (`lossy_encode`).
-/

namespace MediaChain

/-- Raw stream data. -/
abbrev Bytes := List UInt8

namespace Utf8

/-! ## Writing -/

/-- The UTF-8 form of a text. -/
def encode (s : String) : Bytes := s.toByteArray.data.toList

theorem encode_eq_flatMap (s : String) : encode s = s.toList.flatMap String.utf8EncodeChar := by
  conv => lhs; rw [← String.ofList_toList (s := s)]
  exact List.toList_data_toByteArray

theorem encode_ofList (cs : List Char) :
    encode (String.ofList cs) = cs.flatMap String.utf8EncodeChar :=
  List.toList_data_toByteArray

theorem toByteArray_encode (s : String) : (encode s).toByteArray = s.toByteArray := by
  apply ByteArray.ext
  simp [encode]

theorem encode_append (s t : String) : encode (s ++ t) = encode s ++ encode t := by
  simp [encode_eq_flatMap]

theorem encode_injective {s t : String} (h : encode s = encode t) : s = t := by
  have h' := congrArg List.toByteArray h
  rwa [toByteArray_encode, toByteArray_encode, String.toByteArray_inj] at h'

/-! ## Reading -/

/-- The text with this UTF-8 form, if there is one. -/
def decode? (bs : Bytes) : Option String := String.fromUTF8? bs.toByteArray

theorem decode?_encode (s : String) : decode? (encode s) = some s := by
  have h : (encode s).toByteArray.IsValidUTF8 := by
    rw [toByteArray_encode]
    exact s.isValidUTF8
  rw [decode?, String.fromUTF8?, dif_pos h]
  congr 1
  rw [← String.toByteArray_inj]
  exact toByteArray_encode s

theorem decode?_eq_some_iff {bs : Bytes} {s : String} : decode? bs = some s ↔ bs = encode s := by
  constructor
  · intro h
    rw [decode?, String.fromUTF8?] at h
    split at h
    · have hs : s.toByteArray = bs.toByteArray := by
        injection h with h
        rw [← h]
        rfl
      rw [encode, hs, List.toList_data_toByteArray]
    · contradiction
  · rintro rfl
    exact decode?_encode s

/-- The character that the bytes begin with, if they begin with one. -/
def head? (bs : Bytes) : Option Char := (bs.take 4).toByteArray.utf8DecodeChar? 0

theorem head?_append (c : Char) (rest : Bytes) :
    head? (String.utf8EncodeChar c ++ rest) = some c := by
  have h : (String.utf8EncodeChar c).length ≤ 4 := by
    rw [String.length_utf8EncodeChar]
    exact c.utf8Size_le_four
  rw [head?, List.take_append, List.take_of_length_le h, List.toByteArray_append]
  exact ByteArray.utf8DecodeChar?_utf8EncodeChar_append

/-- The ranges in which the bytes behind a lead byte have to lie, in order. -/
def continuations (lead : UInt8) : List (UInt8 × UInt8) :=
  if lead < 0xC2 then []
  else if lead < 0xE0 then [(0x80, 0xBF)]
  else if lead < 0xF0 then
    [(if lead = 0xE0 then 0xA0 else 0x80, if lead = 0xED then 0x9F else 0xBF), (0x80, 0xBF)]
  else if lead < 0xF5 then
    [(if lead = 0xF0 then 0x90 else 0x80, if lead = 0xF4 then 0x8F else 0xBF), (0x80, 0xBF),
      (0x80, 0xBF)]
  else []

/-- How many bytes lie in the given ranges before the first that does not. -/
def agreeing : List (UInt8 × UInt8) → Bytes → Nat
  | (lo, hi) :: ranges, b :: bs => if lo ≤ b ∧ b ≤ hi then agreeing ranges bs + 1 else 0
  | _, _ => 0

/-- Reads bytes of which the first `skip` have been dealt with. A lead byte and the bytes that
could have continued it become one U+FFFD together. -/
def lossyFrom : Nat → Bytes → List Char
  | _, [] => []
  | skip + 1, _ :: bs => lossyFrom skip bs
  | 0, b :: bs =>
    match head? (b :: bs) with
    | some c => c :: lossyFrom (c.utf8Size - 1) bs
    | none => '\uFFFD' :: lossyFrom (agreeing (continuations b) bs) bs

/-- Reads any bytes as text. -/
def lossy (bs : Bytes) : String := String.ofList (lossyFrom 0 bs)

theorem lossyFrom_append (done rest : Bytes) :
    lossyFrom done.length (done ++ rest) = lossyFrom 0 rest := by
  induction done with
  | nil => rfl
  | cons b done ih => simpa [lossyFrom] using ih

theorem lossyFrom_char (c : Char) (rest : Bytes) :
    lossyFrom 0 (String.utf8EncodeChar c ++ rest) = c :: lossyFrom 0 rest := by
  have hl := String.length_utf8EncodeChar c
  have hp := c.utf8Size_pos
  have hh := head?_append c rest
  cases he : String.utf8EncodeChar c with
  | nil => simp [he] at hl; omega
  | cons b bs =>
    rw [he] at hh hl
    have hn : c.utf8Size - 1 = bs.length := by simp at hl; omega
    simp only [List.cons_append] at hh ⊢
    rw [lossyFrom, hh]
    simp only [hn, lossyFrom_append]

theorem lossy_encode (s : String) : lossy (encode s) = s := by
  have h : ∀ cs : List Char, lossyFrom 0 (cs.flatMap String.utf8EncodeChar) = cs := by
    intro cs
    induction cs with
    | nil => rfl
    | cons c cs ih => rw [List.flatMap_cons, lossyFrom_char, ih]
  rw [lossy, encode_eq_flatMap, h, String.ofList_toList]

end Utf8

end MediaChain
