import MediaChain.Text.Utf8
import Mathlib.Data.List.Basic

/-!
# The bytes of characters

Characters of ASCII are one byte each, and all other bytes lie above them. The first byte of a
character is none that continues one (`Utf8.firstByte_cons`), so that the bytes of a character in
those of a text stand for a character of the text (`Utf8.split_of_encode`).
-/

namespace MediaChain

namespace Utf8

variable {c : Char}

theorem utf8EncodeChar_of_lt (h : c.toNat < 0x80) :
    String.utf8EncodeChar c = [UInt8.ofNat c.toNat] := by
  have hle : c.val.toNat ≤ 127 := Nat.le_of_lt_succ h
  unfold String.utf8EncodeChar
  exact if_pos hle

/-- The bytes of a character that is not ASCII are none of ASCII. -/
theorem le_of_mem_utf8EncodeChar (h : 0x80 ≤ c.toNat) :
    ∀ b ∈ String.utf8EncodeChar c, 0x80 ≤ b := by
  have hgt : ¬c.val.toNat ≤ 127 := Nat.not_le_of_lt h
  have hvalid : c.val.toNat < 0x110000 := by
    rcases c.valid with hlow | ⟨-, hhigh⟩
    · exact Nat.lt_trans hlow (by decide)
    · exact hhigh
  intro b hb
  unfold String.utf8EncodeChar at hb
  simp only [hgt, if_false] at hb
  rw [UInt8.le_iff_toNat_le]
  show 128 ≤ b.toNat
  split at hb
  · simp only [List.mem_cons, List.not_mem_nil, or_false] at hb
    rcases hb with rfl | rfl <;> simp only [UInt8.toNat_ofNat'] <;> omega
  · split at hb
    all_goals simp only [List.mem_cons, List.not_mem_nil, or_false] at hb
    · rcases hb with rfl | rfl | rfl <;> simp only [UInt8.toNat_ofNat'] <;> omega
    · rcases hb with rfl | rfl | rfl | rfl <;> simp only [UInt8.toNat_ofNat'] <;> omega

theorem utf8EncodeChar_ofUInt8 {b : UInt8} (h : b < 0x80) :
    String.utf8EncodeChar (Char.ofUInt8 b) = [b] := by
  have htoNat : (Char.ofUInt8 b).toNat = b.toNat := UInt8.toNat_toUInt32 b
  have hlt : (Char.ofUInt8 b).toNat < 0x80 := by
    rw [htoNat]
    exact UInt8.lt_iff_toNat_lt.mp h
  rw [utf8EncodeChar_of_lt hlt, htoNat, UInt8.ofNat_toNat]

/-- Bytes of ASCII, taken as characters, are their own bytes. -/
theorem encode_ofList_map_ofUInt8 {bs : Bytes} (h : ∀ b ∈ bs, b < 0x80) :
    encode (String.ofList (bs.map Char.ofUInt8)) = bs := by
  rw [encode_ofList, List.flatMap_map]
  induction bs with
  | nil => rfl
  | cons b bs ih =>
    rw [List.forall_mem_cons] at h
    rw [List.flatMap_cons, utf8EncodeChar_ofUInt8 h.1, ih h.2]
    rfl

/-- A byte of ASCII is part of no other character. -/
theorem not_mem_utf8EncodeChar {b : UInt8} (hb : b < 0x80) (hc : c ≠ Char.ofUInt8 b) :
    b ∉ String.utf8EncodeChar c := by
  intro hmem
  rcases Nat.lt_or_ge c.toNat 0x80 with hlt | hge
  · rw [utf8EncodeChar_of_lt hlt, List.mem_singleton] at hmem
    have htoNat : b.toNat = c.toNat := by
      rw [hmem, UInt8.toNat_ofNat']
      exact Nat.mod_eq_of_lt (Nat.lt_trans hlt (by decide))
    have hofUInt8 : (Char.ofUInt8 b).toNat = b.toNat := UInt8.toNat_toUInt32 b
    exact hc (Char.ext (UInt32.toNat_inj.mp (htoNat.symm.trans hofUInt8.symm)))
  · exact absurd (le_of_mem_utf8EncodeChar hge b hmem) (UInt8.not_le.mpr hb)

/-- A character begins with a byte that continues none, and goes on with bytes that begin none. -/
theorem firstByte_cons {b : UInt8} {bs : Bytes} (h : String.utf8EncodeChar c = b :: bs) :
    b.IsUTF8FirstByte ∧ ∀ b' ∈ bs, ¬b'.IsUTF8FirstByte := by
  have hfirst : ∀ i, (hi : i < (b :: bs).length) → ((b :: bs)[i].IsUTF8FirstByte ↔ i = 0) := by
    rw [← h]
    exact fun i hi => UInt8.isUTF8FirstByte_getElem_utf8EncodeChar
  refine ⟨(hfirst 0 (Nat.succ_pos _)).mpr rfl, fun b' hb' => ?_⟩
  obtain ⟨i, hi, rfl⟩ := List.mem_iff_getElem.mp hb'
  exact fun hbyte => Nat.succ_ne_zero i ((hfirst (i + 1) (Nat.succ_lt_succ hi)).mp hbyte)

/-- A character ends with a byte of ASCII or with one that begins none. -/
theorem getLast?_utf8EncodeChar {b : UInt8} (h : (String.utf8EncodeChar c).getLast? = some b) :
    b < 0x80 ∨ ¬b.IsUTF8FirstByte := by
  rcases Nat.lt_or_ge c.toNat 0x80 with hlt | hge
  · rw [utf8EncodeChar_of_lt hlt, List.getLast?_singleton] at h
    obtain rfl := Option.some.inj h
    refine .inl (UInt8.lt_iff_toNat_lt.mpr ?_)
    rw [UInt8.toNat_ofNat', Nat.mod_eq_of_lt (Nat.lt_trans hlt (by decide))]
    exact hlt
  · obtain ⟨b', bs, hbytes⟩ := List.exists_cons_of_ne_nil (String.utf8EncodeChar_ne_nil (c := c))
    have hsize : c.utf8Size ≠ 1 := by
      rw [Ne, Char.utf8Size_eq_one_iff, UInt32.le_iff_toNat_le]
      exact Nat.not_le_of_lt hge
    have hlength := String.length_utf8EncodeChar c
    rw [hbytes] at h hlength
    cases bs with
    | nil => exact absurd hlength.symm hsize
    | cons e bs =>
      rw [List.getLast?_cons_cons] at h
      exact .inr ((firstByte_cons hbytes).2 b (List.mem_of_getLast? h))

/-- The bytes of a text hold those of a character only where the text holds the character. -/
theorem split_of_encode {t : List Char} {front back : Bytes}
    (h : t.flatMap String.utf8EncodeChar = front ++ (String.utf8EncodeChar c ++ back)) :
    ∃ t₁ t₂, t = t₁ ++ c :: t₂ ∧ t₁.flatMap String.utf8EncodeChar = front ∧
      t₂.flatMap String.utf8EncodeChar = back := by
  induction t generalizing front with
  | nil =>
    have hnil := (List.append_eq_nil_iff.mp (List.append_eq_nil_iff.mp h.symm).2).1
    exact absurd hnil String.utf8EncodeChar_ne_nil
  | cons d t ih =>
    rw [List.flatMap_cons] at h
    cases front with
    | nil =>
      obtain rfl : d = c := by
        have hhead := congrArg head? h
        rw [List.nil_append, head?_append, head?_append] at hhead
        exact Option.some.inj hhead
      exact ⟨[], t, rfl, rfl, List.append_cancel_left h⟩
    | cons b front =>
      obtain ⟨b', bs, hbytes⟩ := List.exists_cons_of_ne_nil (String.utf8EncodeChar_ne_nil (c := d))
      rw [hbytes, List.cons_append, List.cons_append] at h
      obtain ⟨rfl, hrest⟩ := List.cons.inj h
      -- the character cannot begin inside of the one that the text begins with
      obtain ⟨front', rfl, hfront⟩ : ∃ front', front = bs ++ front' ∧
          t.flatMap String.utf8EncodeChar = front' ++ (String.utf8EncodeChar c ++ back) := by
        rcases List.append_eq_append_iff.mp hrest with hfront | ⟨inside, rfl, hinside⟩
        · exact hfront
        · obtain ⟨first, more, hc⟩ :=
            List.exists_cons_of_ne_nil (String.utf8EncodeChar_ne_nil (c := c))
          cases inside with
          | nil => exact ⟨[], by simp, hinside.symm⟩
          | cons e inside =>
            rw [hc] at hinside
            obtain rfl : first = e := (List.cons.inj hinside).1
            exact absurd (firstByte_cons hc).1 ((firstByte_cons hbytes).2 first (by simp))
      obtain ⟨t₁, t₂, rfl, rfl, hback⟩ := ih hfront
      refine ⟨d :: t₁, t₂, rfl, ?_, hback⟩
      rw [List.flatMap_cons, hbytes, List.cons_append]

end Utf8

end MediaChain
