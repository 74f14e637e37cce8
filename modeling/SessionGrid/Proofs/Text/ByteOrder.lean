/-!
# Texts in order of their bytes

Texts are compared by code point. Of two characters the one with the smaller code point also has the
smaller bytes in UTF-8, whatever comes after it, so that texts are in order by code point exactly if their
bytes are (`lt_iff_bytes_lt`).
-/

namespace SessionGrid.Text

/-- The bytes of a text in UTF-8. -/
def bytes (s : String) : List UInt8 :=
  s.toUTF8.data.toList

theorem bytes_eq (s : String) : bytes s = s.toList.flatMap String.utf8EncodeChar := by
  rw [bytes, String.toUTF8, ← String.utf8Encode_toList]
  simp [List.utf8Encode]

section Bytes

variable {m n : Nat} {as bs : List UInt8}

theorem byte_cons_lt (small : n < 256) (lt : m < n) : UInt8.ofNat m :: as < UInt8.ofNat n :: bs := by
  apply List.cons_lt_cons_iff.2
  left
  rw [UInt8.lt_iff_toNat_lt, UInt8.toNat_ofNat', UInt8.toNat_ofNat']
  omega

/-- After equal bytes the later ones decide. -/
theorem byte_cons_lt_of_le (small : n < 256) (le : m ≤ n) (later : m = n → as < bs) :
    UInt8.ofNat m :: as < UInt8.ofNat n :: bs := by
  by_cases same : m = n
  · subst same
    exact List.cons_lt_cons_iff.2 (.inr ⟨rfl, later rfl⟩)
  · apply byte_cons_lt small
    omega

end Bytes

/-- The bytes of a character, by their number. -/
theorem utf8EncodeChar_cases (c : Char) :
    c.toNat < 0x110000 ∧
      (c.toNat ≤ 127 ∧ String.utf8EncodeChar c = [.ofNat c.toNat] ∨
        (127 < c.toNat ∧ c.toNat ≤ 2047) ∧ String.utf8EncodeChar c =
          [.ofNat (c.toNat / 64 % 32 + 192), .ofNat (c.toNat % 64 + 128)] ∨
        (2047 < c.toNat ∧ c.toNat ≤ 65535) ∧ String.utf8EncodeChar c =
          [.ofNat (c.toNat / 4096 % 16 + 224), .ofNat (c.toNat / 64 % 64 + 128),
            .ofNat (c.toNat % 64 + 128)] ∨
        65535 < c.toNat ∧ String.utf8EncodeChar c =
          [.ofNat (c.toNat / 262144 % 8 + 240), .ofNat (c.toNat / 4096 % 64 + 128),
            .ofNat (c.toNat / 64 % 64 + 128), .ofNat (c.toNat % 64 + 128)]) := by
  have code : c.val.toNat = c.toNat := rfl
  constructor
  · have valid := c.valid
    simp only [UInt32.isValidChar, Nat.isValidChar] at valid
    omega
  · rw [String.utf8EncodeChar.eq_1, code]
    by_cases one : c.toNat ≤ 127
    · exact .inl ⟨one, if_pos one⟩
    · rw [if_neg one]
      by_cases two : c.toNat ≤ 2047
      · exact .inr (.inl ⟨⟨by omega, two⟩, if_pos two⟩)
      · rw [if_neg two]
        by_cases three : c.toNat ≤ 65535
        · exact .inr (.inr (.inl ⟨⟨by omega, three⟩, if_pos three⟩))
        · exact .inr (.inr (.inr ⟨by omega, if_neg three⟩))

/-- More bytes stand for a larger code point, and equally many are compared from the left. -/
theorem utf8EncodeChar_append_lt {c d : Char} (lt : c < d) (as bs : List UInt8) :
    String.utf8EncodeChar c ++ as < String.utf8EncodeChar d ++ bs := by
  have values : c.toNat < d.toNat := lt
  obtain ⟨-, formC⟩ := utf8EncodeChar_cases c
  obtain ⟨small, formD⟩ := utf8EncodeChar_cases d
  generalize c.toNat = m at *
  generalize d.toNat = n at *
  rcases formC with ⟨rc, c⟩ | ⟨rc, c⟩ | ⟨rc, c⟩ | ⟨rc, c⟩ <;>
    rcases formD with ⟨rd, d⟩ | ⟨rd, d⟩ | ⟨rd, d⟩ | ⟨rd, d⟩ <;>
    rw [c, d]
  -- One byte
  · exact byte_cons_lt (by omega) values
  · exact byte_cons_lt (by omega) (by omega)
  · exact byte_cons_lt (by omega) (by omega)
  · exact byte_cons_lt (by omega) (by omega)
  -- Two bytes
  · omega
  · apply byte_cons_lt_of_le (by omega) (by omega)
    intro same
    exact byte_cons_lt (by omega) (by omega)
  · exact byte_cons_lt (by omega) (by omega)
  · exact byte_cons_lt (by omega) (by omega)
  -- Three bytes
  · omega
  · omega
  · apply byte_cons_lt_of_le (by omega) (by omega)
    intro same
    apply byte_cons_lt_of_le (by omega) (by omega)
    intro same'
    exact byte_cons_lt (by omega) (by omega)
  · exact byte_cons_lt (by omega) (by omega)
  -- Four bytes
  · omega
  · omega
  · omega
  · apply byte_cons_lt_of_le (by omega) (by omega)
    intro same
    apply byte_cons_lt_of_le (by omega) (by omega)
    intro same'
    apply byte_cons_lt_of_le (by omega) (by omega)
    intro same''
    exact byte_cons_lt (by omega) (by omega)

theorem flatMap_lt {cs ds : List Char} (lt : cs < ds) :
    cs.flatMap String.utf8EncodeChar < ds.flatMap String.utf8EncodeChar := by
  induction cs generalizing ds with
  | nil =>
    cases ds with
    | nil => exact absurd lt (List.lt_irrefl [])
    | cons d ds =>
      rw [List.flatMap_nil, List.flatMap_cons]
      cases bytes : String.utf8EncodeChar d with
      | nil => exact absurd bytes String.utf8EncodeChar_ne_nil
      | cons b bs => exact List.nil_lt_cons b _
  | cons c cs ih =>
    cases ds with
    | nil => exact absurd lt (List.not_lt_nil _)
    | cons d ds =>
      rw [List.flatMap_cons, List.flatMap_cons]
      rcases List.cons_lt_cons_iff.1 lt with first | ⟨rfl, later⟩
      · exact utf8EncodeChar_append_lt first _ _
      · exact List.append_left_lt (ih later)

/-- **Order.** Texts are in order by code point exactly if their bytes are. -/
theorem lt_iff_bytes_lt {s t : String} : s < t ↔ bytes s < bytes t := by
  have forward : ∀ {s t : String}, s < t → bytes s < bytes t := by
    intro s t lt
    rw [bytes_eq, bytes_eq]
    exact flatMap_lt lt
  constructor
  · exact forward
  · intro lt
    apply String.not_le.1
    intro le
    by_cases same : s = t
    · subst same
      exact List.lt_irrefl _ lt
    · have gt : t < s := by
        apply String.not_le.1
        intro ge
        exact same (String.le_antisymm ge le)
      exact List.lt_asymm lt (forward gt)

end SessionGrid.Text
