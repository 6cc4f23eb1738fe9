import MediaChain.Proofs.Text.Natural
import MediaChain.Proofs.Text.Utf8
import MediaChain.Url

/-!
# Coding of urls

A text is read back from its stored form (`Url.decode?_encode`), which consists of plain bytes and
percent signs (`Url.mem_escape`). The check of the escapes, the pass over the plus signs and the
pass over the escapes come to one pass (`Url.decode?_eq_unescape?`). So a stored form is read from
the left to the right, each escape as one byte (`Url.pass`). It can be read if and only if two
digits follow each percent sign (`Url.Escaped`) and the bytes are text (`Url.decode?_eq_some_iff`).
-/

namespace MediaChain

namespace Url

variable {b : UInt8} {bs front rest : Bytes} {c : Char} {cs : List Char} {s : String}

/-! ## One pass -/

/-- The plus sign, which stands for a space. -/
def plus : UInt8 := 0x2B

/-- A space for a plus sign. -/
def space (b : UInt8) : UInt8 := if b = plus then 0x20 else b

/-- Reads escapes back, and plus signs as spaces. A percent sign needs two digits behind it. -/
def unescape? : Bytes → Option Bytes
  | [] => some []
  | b :: bs =>
    if b = percent then
      match bs with
      | high :: low :: rest =>
        match hexValue? high, hexValue? low with
        | some x, some y => (unescape? rest).map ((16 * x + y) :: ·)
        | _, _ => none
      | _ => none
    else (unescape? bs).map (space b :: ·)

theorem ne_of_hexValue? {d x : UInt8} (h : hexValue? d = some x) : d ≠ percent ∧ space d = d := by
  have hpercent : hexValue? percent = none := by decide
  have hplus : hexValue? plus = none := by decide
  constructor
  · rintro rfl
    rw [hpercent] at h
    cases h
  · refine if_neg ?_
    rintro rfl
    rw [hplus] at h
    cases h

theorem readEscapes_cons (h : b ≠ percent) (bs : Bytes) :
    readEscapes (b :: bs) = b :: readEscapes bs := by
  conv => lhs; unfold readEscapes
  exact if_neg h

theorem readEscapes_percent {high low x y : UInt8} (hx : hexValue? high = some x)
    (hy : hexValue? low = some y) (rest : Bytes) :
    readEscapes (percent :: high :: low :: rest) = (16 * x + y) :: readEscapes rest := by
  simp [readEscapes, hx, hy]

/-- The three passes come to one, which stops where the check would have failed. -/
theorem unescape?_eq (bs : Bytes) :
    unescape? bs = if isEscaped bs then some (readEscapes (bs.map space)) else none := by
  fun_induction unescape? bs with
  | case1 => simp [isEscaped, readEscapes]
  | case2 high low rest y x hy hx ih =>
    -- digits are neither percent signs nor plus signs
    obtain ⟨hhigh, hspace⟩ := ne_of_hexValue? hx
    obtain ⟨hlow, hspace'⟩ := ne_of_hexValue? hy
    have hescaped : isEscaped (percent :: high :: low :: rest) = isEscaped rest := by
      simp [isEscaped, hx, hy, hhigh, hlow]
    have hpercent : space percent = percent := by decide
    rw [ih, hescaped, List.map_cons, List.map_cons, List.map_cons, hpercent, hspace, hspace',
      readEscapes_percent hx hy]
    cases isEscaped rest <;> rfl
  | case3 high low rest hnot =>
    have hbroken : isEscaped (percent :: high :: low :: rest) = false := by
      rw [Bool.eq_false_iff]
      intro h
      simp only [isEscaped, List.take_succ_cons, List.all_cons, Bool.and_eq_true, Bool.or_eq_true,
        Option.isSome_iff_exists] at h
      simp only [ne_eq, not_true_eq_false, decide_false, Bool.false_eq_true, false_or] at h
      obtain ⟨⟨-, ⟨x, hx⟩, ⟨y, hy⟩, -⟩, -⟩ := h
      exact hnot x y hx hy
    rw [hbroken]
    rfl
  | case4 bs hshort =>
    have hbroken : isEscaped (percent :: bs) = false := by
      match bs with
      | [] => rfl
      | [_] => simp [isEscaped]
      | high :: low :: rest => exact (hshort high low rest rfl).elim
    rw [hbroken]
    rfl
  | case5 b bs hb ih =>
    have hescaped : isEscaped (b :: bs) = isEscaped bs := by simp [isEscaped, hb]
    have hspace : space b ≠ percent := by
      unfold space
      split
      · decide
      · exact hb
    rw [ih, hescaped, List.map_cons, readEscapes_cons hspace]
    cases isEscaped bs <;> rfl

/-- The bytes of other characters are neither percent signs nor plus signs. -/
theorem ne_of_mem_utf8EncodeChar (hpercent : c ≠ '%') (hplus : c ≠ '+') :
    ∀ b ∈ String.utf8EncodeChar c, b ≠ percent ∧ b ≠ plus := by
  intro b hb
  constructor
  · rintro rfl
    exact Utf8.not_mem_utf8EncodeChar (by decide) hpercent hb
  · rintro rfl
    exact Utf8.not_mem_utf8EncodeChar (by decide) hplus hb

/-- Plus signs are the same in a text as among its bytes. -/
theorem encode_spaced (raw : String) :
    Utf8.encode (spaced raw) = (Utf8.encode raw).map space := by
  rw [spaced, Utf8.encode_ofList, Utf8.encode_eq_flatMap, List.flatMap_map, List.map_flatMap]
  refine List.flatMap_congr fun c _ => ?_
  by_cases hc : c = '+'
  · subst hc
    decide
  · have hspace : ∀ b ∈ String.utf8EncodeChar c, space b = b := by
      intro b hb
      refine if_neg ?_
      rintro rfl
      exact Utf8.not_mem_utf8EncodeChar (by decide) hc hb
    rw [if_neg hc, List.map_congr_left (g := id) hspace, List.map_id]

theorem decode?_eq_unescape? (raw : String) :
    decode? raw = (unescape? (Utf8.encode raw)).bind Utf8.decode? := by
  rw [decode?, unescape?_eq, encode_spaced]
  split <;> rfl

/-! ## Reading escapes back -/

theorem hexValue?_hexDigit (h : b < 16) : hexValue? (hexDigit b) = some b := by
  have hall : ∀ n < 16, hexValue? (hexDigit (UInt8.ofNat n)) = some (UInt8.ofNat n) := by decide
  have hb := hall b.toNat (UInt8.lt_iff_toNat_lt.mp h)
  rwa [UInt8.ofNat_toNat] at hb

theorem isPlain_hexDigit (h : b < 16) : isPlain (hexDigit b) = true := by
  have hall : ∀ n < 16, isPlain (hexDigit (UInt8.ofNat n)) = true := by decide
  have hb := hall b.toNat (UInt8.lt_iff_toNat_lt.mp h)
  rwa [UInt8.ofNat_toNat] at hb

theorem div_sixteen_lt (b : UInt8) : b / 16 < 16 := by
  have hb := b.toNat_lt
  rw [UInt8.lt_iff_toNat_lt, UInt8.toNat_div]
  show b.toNat / 16 < 16
  omega

theorem mod_sixteen_lt (b : UInt8) : b % 16 < 16 := by
  rw [UInt8.lt_iff_toNat_lt, UInt8.toNat_mod]
  exact Nat.mod_lt _ (by decide)

theorem sixteen_mul_div_add_mod (b : UInt8) : 16 * (b / 16) + b % 16 = b := by
  have hb := b.toNat_lt
  rw [← UInt8.toNat_inj, UInt8.toNat_add, UInt8.toNat_mul, UInt8.toNat_div, UInt8.toNat_mod]
  show (16 * (b.toNat / 16) % 256 + b.toNat % 16) % 256 = b.toNat
  omega

/-- A plain byte is a visible one of ASCII that is not reserved. -/
theorem isPlain_iff : isPlain b = true ↔ (0x20 < b ∧ b < 0x7F) ∧ b ∉ reserved := by
  simp [isPlain]

/-- The written form of a byte consists of plain bytes and percent signs. -/
theorem mem_escape {b' : UInt8} (h : b' ∈ escape b) : isPlain b' = true ∨ b' = percent := by
  unfold escape at h
  split at h
  next hplain =>
    obtain rfl := List.mem_singleton.mp h
    exact .inl hplain
  next =>
    simp only [List.mem_cons, List.not_mem_nil, or_false] at h
    rcases h with rfl | rfl | rfl
    · exact .inr rfl
    · exact .inl (isPlain_hexDigit (div_sixteen_lt b))
    · exact .inl (isPlain_hexDigit (mod_sixteen_lt b))

theorem lt_of_mem_escape {b' : UInt8} (h : b' ∈ escape b) : b' < 0x80 := by
  rcases mem_escape h with hplain | rfl
  · exact UInt8.lt_trans (isPlain_iff.mp hplain).1.2 (by decide)
  · decide

theorem unescape?_cons (h : b ≠ percent) (rest : Bytes) :
    unescape? (b :: rest) = (unescape? rest).map (space b :: ·) := by
  conv => lhs; unfold unescape?
  exact if_neg h

/-- Bytes other than the percent sign and the plus sign are read as they are. -/
theorem unescape?_append (h : ∀ b ∈ front, b ≠ percent ∧ b ≠ plus) (rest : Bytes) :
    unescape? (front ++ rest) = (unescape? rest).map (front ++ ·) := by
  induction front with
  | nil => simp
  | cons b front ih =>
    rw [List.forall_mem_cons] at h
    obtain ⟨⟨hpercent, hplus⟩, h⟩ := h
    rw [List.cons_append, unescape?_cons hpercent, space, if_neg hplus, ih h, Option.map_map]
    rfl

theorem unescape?_plus (rest : Bytes) :
    unescape? (plus :: rest) = (unescape? rest).map (0x20 :: ·) := by
  rw [unescape?_cons (by decide), space, if_pos rfl]

/-- Two digits behind a percent sign are read as one byte. -/
theorem unescape?_percent {high low x y : UInt8} (hx : hexValue? high = some x)
    (hy : hexValue? low = some y) (rest : Bytes) :
    unescape? (percent :: high :: low :: rest) =
      (unescape? rest).map ((16 * x + y) :: ·) := by
  rw [unescape?, if_pos rfl]
  simp only [hx, hy]

theorem unescape?_escape (b : UInt8) (rest : Bytes) :
    unescape? (escape b ++ rest) = (unescape? rest).map (b :: ·) := by
  unfold escape
  split
  next hplain =>
    have hreserved := (isPlain_iff.mp hplain).2
    have hread : ∀ b' ∈ [b], b' ≠ percent ∧ b' ≠ plus := by
      rw [List.forall_mem_singleton]
      constructor <;> rintro rfl <;> exact hreserved (by decide)
    exact unescape?_append hread rest
  next =>
    have hread := unescape?_percent (hexValue?_hexDigit (div_sixteen_lt b))
      (hexValue?_hexDigit (mod_sixteen_lt b)) rest
    rwa [sixteen_mul_div_add_mod] at hread

theorem unescape?_flatMap_escape (bs : Bytes) : unescape? (bs.flatMap escape) = some bs := by
  induction bs with
  | nil => rfl
  | cons b bs ih => rw [List.flatMap_cons, unescape?_escape, ih, Option.map_some]

/-! ## The stored form -/

theorem encode_bytes (s : String) :
    Utf8.encode (encode s) = (Utf8.encode s).flatMap escape := by
  refine Utf8.encode_ofList_map_ofUInt8 fun b hb => ?_
  obtain ⟨b', -, hb⟩ := List.mem_flatMap.mp hb
  exact lt_of_mem_escape hb

theorem decode?_encode (s : String) : decode? (encode s) = some s := by
  rw [decode?_eq_unescape?, encode_bytes, unescape?_flatMap_escape, Option.bind_some,
    Utf8.decode?_encode]

theorem encode_append (s t : String) : encode (s ++ t) = encode s ++ encode t := by
  unfold encode
  rw [Utf8.encode_append, List.flatMap_append, List.map_append, String.ofList_append]

/-! ## Reading from the left to the right -/

/-- The hexadecimal digits by their values, letters in lower case. -/
def hexDigits : List Char := "0123456789abcdef".toList

/-- A hexadecimal digit, of either case. -/
def IsHexDigit (c : Char) : Prop := c.toLower ∈ hexDigits

instance (c : Char) : Decidable (IsHexDigit c) :=
  inferInstanceAs (Decidable (c.toLower ∈ hexDigits))

/-- What a hexadecimal digit stands for. -/
def digitValue (c : Char) : Nat := hexDigits.idxOf c.toLower

/-- Characters that begin with two digits, as those behind a percent sign have to. -/
def Opens (behind : List Char) : Prop :=
  ∃ high low more, behind = high :: low :: more ∧ IsHexDigit high ∧ IsHexDigit low

/-- Two digits follow each percent sign. -/
def Escaped (cs : List Char) : Prop := ∀ front behind, cs = front ++ '%' :: behind → Opens behind

/-- The bytes that are read in one pass: an escape is one byte, a plus sign is a space, and every
other character gives its own bytes. -/
def pass : List Char → Bytes
  | [] => []
  | '%' :: high :: low :: more =>
    UInt8.ofNat (16 * digitValue high + digitValue low) :: pass more
  | '+' :: more => 0x20 :: pass more
  | c :: more => String.utf8EncodeChar c ++ pass more

theorem isHexDigit_iff : IsHexDigit c ↔ digitValue c < 16 := List.idxOf_lt_length_iff.symm

theorem lt_of_isHexDigit (h : IsHexDigit c) : c.toNat < 0x80 := by
  rcases Nat.lt_or_ge c.toNat 0x80 with hlt | hge
  · exact hlt
  · have hupper : ¬('A'.val ≤ c.val ∧ c.val ≤ 'Z'.val) := by
      rintro ⟨-, hle⟩
      have hle : c.toNat ≤ 'Z'.toNat := UInt32.le_iff_toNat_le.mp hle
      have hZ : 'Z'.toNat = 0x5A := rfl
      omega
    have hall : hexDigits.all (·.toNat < 0x80) = true := by decide
    unfold IsHexDigit at h
    rw [Natural.toLower_of_not_isUpper hupper] at h
    exact of_decide_eq_true (List.all_eq_true.mp hall c h)

/-- A byte is a digit with the value of the character that it is. -/
theorem hexValue?_ofNat (h : c.toNat < 0x80) :
    hexValue? (UInt8.ofNat c.toNat) =
      if digitValue c < 16 then some (UInt8.ofNat (digitValue c)) else none := by
  have hall : ∀ n < 0x80, hexValue? (UInt8.ofNat (Char.ofNat n).toNat) =
      if digitValue (Char.ofNat n) < 16 then some (UInt8.ofNat (digitValue (Char.ofNat n)))
      else none := by decide +kernel
  have hc := hall c.toNat h
  rwa [Char.ofNat_toNat] at hc

/-- A byte that is not of ASCII is no digit. -/
theorem hexValue?_of_le (h : 0x80 ≤ b) : hexValue? b = none := by
  have hle : ∀ d : UInt8, d < 0x80 → ¬b ≤ d := fun d hd hbd =>
    UInt8.lt_irrefl _ (UInt8.lt_of_lt_of_le hd (UInt8.le_trans h hbd))
  unfold hexValue?
  rw [if_neg fun hb => hle _ (by decide) hb.2, if_neg fun hb => hle _ (by decide) hb.2,
    if_neg fun hb => hle _ (by decide) hb.2]

/-- The first byte of a character tells whether it is a digit, and a digit has no other byte. -/
theorem utf8EncodeChar_cases (c : Char) :
    (IsHexDigit c ∧ ∃ b, String.utf8EncodeChar c = [b] ∧
        hexValue? b = some (UInt8.ofNat (digitValue c))) ∨
      (¬IsHexDigit c ∧ ∃ b more, String.utf8EncodeChar c = b :: more ∧ hexValue? b = none) := by
  by_cases h : IsHexDigit c
  · have hlt := lt_of_isHexDigit h
    have hvalue := hexValue?_ofNat hlt
    rw [if_pos (isHexDigit_iff.mp h)] at hvalue
    exact .inl ⟨h, _, Utf8.utf8EncodeChar_of_lt hlt, hvalue⟩
  · refine .inr ⟨h, ?_⟩
    rcases Nat.lt_or_ge c.toNat 0x80 with hlt | hge
    · have hvalue := hexValue?_ofNat hlt
      rw [if_neg (isHexDigit_iff.not.mp h)] at hvalue
      exact ⟨_, [], Utf8.utf8EncodeChar_of_lt hlt, hvalue⟩
    · obtain ⟨b, more, hbytes⟩ := List.exists_cons_of_ne_nil (String.utf8EncodeChar_ne_nil (c := c))
      refine ⟨b, more, hbytes, hexValue?_of_le (Utf8.le_of_mem_utf8EncodeChar hge b ?_)⟩
      rw [hbytes]
      exact List.mem_cons_self

/-- Bytes are not read if a percent sign is not followed by two digits. -/
theorem unescape?_of_not_opens (h : ¬Opens cs) :
    unescape? (percent :: cs.flatMap String.utf8EncodeChar) = none := by
  cases cs with
  | nil => rfl
  | cons high cs =>
    rw [List.flatMap_cons]
    rcases utf8EncodeChar_cases high with ⟨hhigh, b, hbytes, hvalue⟩ | ⟨-, b, more, hbytes, hvalue⟩
    · rw [hbytes]
      cases cs with
      | nil => rfl
      | cons low cs =>
        rcases utf8EncodeChar_cases low with ⟨hlow, -⟩ | ⟨-, b', more, hbytes', hvalue'⟩
        · exact absurd ⟨high, low, cs, rfl, hhigh, hlow⟩ h
        · rw [List.flatMap_cons, hbytes']
          simp [unescape?, hvalue, hvalue']
    · rw [hbytes]
      cases hmore : more ++ cs.flatMap String.utf8EncodeChar with
      | nil =>
        rw [List.cons_append, hmore]
        rfl
      | cons b' more =>
        rw [List.cons_append, hmore]
        simp [unescape?, hvalue]

theorem escaped_nil : Escaped [] := by
  intro front behind h
  simp at h

theorem escaped_cons (hc : c ≠ '%') : Escaped (c :: cs) ↔ Escaped cs := by
  constructor
  · rintro h front behind rfl
    exact h (c :: front) behind rfl
  · intro h front behind hcs
    cases front with
    | nil => exact absurd (List.cons.inj hcs).1 hc
    | cons d front => exact h front behind (List.cons.inj hcs).2

theorem escaped_percent : Escaped ('%' :: cs) ↔ Opens cs ∧ Escaped cs := by
  constructor
  · intro h
    refine ⟨h [] cs rfl, ?_⟩
    rintro front behind rfl
    exact h ('%' :: front) behind rfl
  · rintro ⟨hopens, h⟩ front behind hcs
    cases front with
    | nil =>
      obtain rfl : cs = behind := (List.cons.inj hcs).2
      exact hopens
    | cons d front => exact h front behind (List.cons.inj hcs).2

theorem IsHexDigit.ne_percent (h : IsHexDigit c) : c ≠ '%' := by
  rintro rfl
  revert h
  decide

theorem utf8EncodeChar_percent : String.utf8EncodeChar '%' = [percent] := by decide

theorem utf8EncodeChar_plus : String.utf8EncodeChar '+' = [plus] := by decide

theorem hexValue?_of_isHexDigit (h : IsHexDigit c) :
    ∃ b, String.utf8EncodeChar c = [b] ∧ hexValue? b = some (UInt8.ofNat (digitValue c)) := by
  rcases utf8EncodeChar_cases c with ⟨-, hbytes⟩ | ⟨hnot, -⟩
  · exact hbytes
  · exact absurd h hnot

theorem unescape?_escaped {high low : Char} (hhigh : IsHexDigit high) (hlow : IsHexDigit low)
    (more : List Char) :
    unescape? (('%' :: high :: low :: more).flatMap String.utf8EncodeChar) =
      (unescape? (more.flatMap String.utf8EncodeChar)).map
        (UInt8.ofNat (16 * digitValue high + digitValue low) :: ·) := by
  obtain ⟨b, hbytes, hvalue⟩ := hexValue?_of_isHexDigit hhigh
  obtain ⟨b', hbytes', hvalue'⟩ := hexValue?_of_isHexDigit hlow
  rw [List.flatMap_cons, List.flatMap_cons, List.flatMap_cons, hbytes, hbytes',
    utf8EncodeChar_percent, UInt8.ofNat_add, UInt8.ofNat_mul]
  exact unescape?_percent hvalue hvalue' _

theorem unescape?_spaced (more : List Char) :
    unescape? (('+' :: more).flatMap String.utf8EncodeChar) =
      (unescape? (more.flatMap String.utf8EncodeChar)).map (0x20 :: ·) := by
  rw [List.flatMap_cons, utf8EncodeChar_plus, List.singleton_append, unescape?_plus]

theorem unescape?_other (hpercent : c ≠ '%') (hplus : c ≠ '+') (more : List Char) :
    unescape? ((c :: more).flatMap String.utf8EncodeChar) =
      (unescape? (more.flatMap String.utf8EncodeChar)).map (String.utf8EncodeChar c ++ ·) := by
  rw [List.flatMap_cons, unescape?_append (ne_of_mem_utf8EncodeChar hpercent hplus)]

/-- Where each percent sign opens an escape, the bytes of a text are read in one pass. -/
theorem unescape?_of_escaped (h : Escaped cs) :
    unescape? (cs.flatMap String.utf8EncodeChar) = some (pass cs) := by
  fun_induction pass cs with
  | case1 => rfl
  | case2 high low more ih =>
    obtain ⟨⟨_, _, _, heq, hhigh, hlow⟩, h⟩ := escaped_percent.mp h
    cases heq
    rw [escaped_cons hhigh.ne_percent, escaped_cons hlow.ne_percent] at h
    rw [unescape?_escaped hhigh hlow, ih h, Option.map_some]
  | case3 more ih =>
    rw [unescape?_spaced, ih ((escaped_cons (by decide)).mp h), Option.map_some]
  | case4 c more hescape hplus ih =>
    have hpercent : c ≠ '%' := by
      rintro rfl
      obtain ⟨⟨high, low, behind, rfl, -⟩, -⟩ := escaped_percent.mp h
      exact hescape high low behind rfl rfl
    rw [unescape?_other hpercent hplus, ih ((escaped_cons hpercent).mp h), Option.map_some]

/-- Where a percent sign opens no escape, nothing is read. -/
theorem unescape?_of_not_escaped (h : ¬Escaped cs) :
    unescape? (cs.flatMap String.utf8EncodeChar) = none := by
  fun_induction pass cs with
  | case1 => exact absurd escaped_nil h
  | case2 high low more ih =>
    by_cases hopens : Opens (high :: low :: more)
    · have h := not_and.mp (escaped_percent.not.mp h) hopens
      obtain ⟨_, _, _, heq, hhigh, hlow⟩ := hopens
      cases heq
      rw [escaped_cons hhigh.ne_percent, escaped_cons hlow.ne_percent] at h
      rw [unescape?_escaped hhigh hlow, ih h, Option.map_none]
    · exact unescape?_of_not_opens hopens
  | case3 more ih =>
    rw [unescape?_spaced, ih ((escaped_cons (by decide)).not.mp h), Option.map_none]
  | case4 c more hescape hplus ih =>
    by_cases hpercent : c = '%'
    · subst hpercent
      refine unescape?_of_not_opens ?_
      rintro ⟨high, low, behind, heq, -⟩
      exact hescape high low behind rfl heq
    · rw [unescape?_other hpercent hplus, ih ((escaped_cons hpercent).not.mp h), Option.map_none]

/-! ## Texts and stored forms -/

/-- A stored form is read in one pass, from the left to the right. -/
theorem decode?_eq_some_iff {raw : String} :
    decode? raw = some s ↔ Escaped raw.toList ∧ pass raw.toList = Utf8.encode s := by
  rw [decode?_eq_unescape?, Utf8.encode_eq_flatMap]
  by_cases h : Escaped raw.toList
  · rw [unescape?_of_escaped h, Option.bind_some, Utf8.decode?_eq_some_iff, and_iff_right h]
  · rw [unescape?_of_not_escaped h]
    exact iff_of_false nofun (not_and_of_not_left _ h)

theorem isSome_decode?_iff {raw : String} :
    (decode? raw).isSome = true ↔
      Escaped raw.toList ∧ (pass raw.toList).toByteArray.IsValidUTF8 := by
  rw [Option.isSome_iff_exists]
  constructor
  · rintro ⟨s, hs⟩
    obtain ⟨hescaped, hpass⟩ := decode?_eq_some_iff.mp hs
    rw [hpass, Utf8.toByteArray_encode]
    exact ⟨hescaped, s.isValidUTF8⟩
  · rintro ⟨hescaped, hvalid⟩
    refine ⟨String.ofByteArray _ hvalid, decode?_eq_some_iff.mpr ⟨hescaped, ?_⟩⟩
    exact (List.toList_data_toByteArray).symm

/-- Every text has a stored form that is read back as that text. A form can be read if and only if
two digits follow each percent sign and the bytes of one pass over it are text; then it is read as
that text. -/
theorem coding :
    (∀ s, decode? (encode s) = some s ∧ (decode? (encode s)).map encode = some (encode s)) ∧
      ∀ raw, ((decode? raw).isSome = true ↔
          Escaped raw.toList ∧ (pass raw.toList).toByteArray.IsValidUTF8) ∧
        ∀ s, decode? raw = some s ↔ Escaped raw.toList ∧ pass raw.toList = Utf8.encode s := by
  refine ⟨fun s => ?_, fun raw => ⟨isSome_decode?_iff, fun s => decode?_eq_some_iff⟩⟩
  have hread := decode?_encode s
  refine ⟨hread, ?_⟩
  rw [hread, Option.map_some]

/-- Signs that come out of escapes are not read again. -/
example : decode? "%252B+%2b" = some "%2B +" := by decide +kernel

end Url

end MediaChain
