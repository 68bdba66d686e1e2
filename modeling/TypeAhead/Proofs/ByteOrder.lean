/-
  TypeAhead.Proofs.ByteOrder — TEXTS IN THE ORDER OF THEIR BYTES.

  Texts are compared by their characters, and a character by its number.  Written as
  bytes the characters keep their order: a longer encoding starts with a higher
  byte, and two of one length are compared like numbers, digit by digit.  So it makes
  no difference whether texts are put in the order of characters or of bytes.

      encode_lt         characters and their bytes
      bytes_lt          texts and their bytes
-/
import TypeAhead.Text.Bytes

namespace TypeAhead.Text

/-- The bytes of a text. -/
def bytes (text : String) : List UInt8 := text.toUTF8.data.toList

theorem bytes_eq (text : String) : bytes text = text.toList.flatMap String.utf8EncodeChar := by
  unfold bytes
  rw [String.toUTF8_eq_toByteArray, ← String.utf8Encode_toList]
  exact List.toList_data_toByteArray

/-- The first byte decides, and after equal ones the rest. -/
theorem ofNat_cons_lt {m n : Nat} {u v : List UInt8} (hn : n < 256) (h : m < n ∨ m = n ∧ u < v) :
    UInt8.ofNat m :: u < UInt8.ofNat n :: v := by
  rw [List.cons_lt_cons_iff]
  rcases h with h | ⟨rfl, h⟩
  · left
    rw [UInt8.lt_iff_toNat_lt, UInt8.toNat_ofNat_of_lt' hn, UInt8.toNat_ofNat_of_lt' (Nat.lt_trans h hn)]
    exact h
  · exact .inr ⟨rfl, h⟩

/-- Digits are compared before what comes behind them; each is written with the same mark. -/
theorem digit_cons_lt {m n mark : Nat} {u v : List UInt8} (hn : n + mark < 256) (h : m < n ∨ m = n ∧ u < v) :
    UInt8.ofNat (m + mark) :: u < UInt8.ofNat (n + mark) :: v := by
  apply ofNat_cons_lt hn
  rcases h with h | ⟨rfl, h⟩
  · exact .inl (Nat.add_lt_add_right h mark)
  · exact .inr ⟨rfl, h⟩

/-- **Characters keep their order as bytes**, whatever comes behind them. -/
theorem encode_lt {c d : Char} (h : c < d) (u v : List UInt8) :
    String.utf8EncodeChar c ++ u < String.utf8EncodeChar d ++ v := by
  have hlt : c.val.toNat < d.val.toNat := h
  have hmax : d.val.toNat < 0x110000 := by
    have hvalid := d.valid
    unfold UInt32.isValidChar Nat.isValidChar at hvalid
    omega
  unfold String.utf8EncodeChar
  generalize c.val.toNat = m at hlt
  generalize d.val.toNat = n at hlt hmax
  dsimp only
  -- By the length of the lower encoding: a longer one starts with a higher byte, and one of the same
  -- length is higher in the first digit in which they differ.
  by_cases hm : m ≤ 127
  · rw [if_pos hm]
    split
    · exact ofNat_cons_lt (by omega) (.inl hlt)
    · split
      · exact ofNat_cons_lt (by omega) (.inl (by omega))
      · split
        · exact ofNat_cons_lt (by omega) (.inl (by omega))
        · exact ofNat_cons_lt (by omega) (.inl (by omega))
  · rw [if_neg hm, if_neg (by omega : ¬ n ≤ 127)]
    by_cases hm : m ≤ 2047
    · rw [if_pos hm]
      split
      · have hdigits : m / 64 % 32 < n / 64 % 32 ∨ m / 64 % 32 = n / 64 % 32 ∧ m % 64 < n % 64 := by omega
        refine digit_cons_lt (by omega) (hdigits.imp_right (And.imp_right fun hlast => ?_))
        exact digit_cons_lt (by omega) (.inl hlast)
      · split
        · exact ofNat_cons_lt (by omega) (.inl (by omega))
        · exact ofNat_cons_lt (by omega) (.inl (by omega))
    · rw [if_neg hm, if_neg (by omega : ¬ n ≤ 2047)]
      by_cases hm : m ≤ 65535
      · rw [if_pos hm]
        split
        · have hdigits : m / 4096 % 16 < n / 4096 % 16 ∨ m / 4096 % 16 = n / 4096 % 16 ∧
              (m / 64 % 64 < n / 64 % 64 ∨ m / 64 % 64 = n / 64 % 64 ∧ m % 64 < n % 64) := by omega
          refine digit_cons_lt (by omega) (hdigits.imp_right (And.imp_right fun hrest => ?_))
          refine digit_cons_lt (by omega) (hrest.imp_right (And.imp_right fun hlast => ?_))
          exact digit_cons_lt (by omega) (.inl hlast)
        · exact ofNat_cons_lt (by omega) (.inl (by omega))
      · rw [if_neg hm, if_neg (by omega : ¬ n ≤ 65535)]
        have hdigits : m / 262144 % 8 < n / 262144 % 8 ∨ m / 262144 % 8 = n / 262144 % 8 ∧
            (m / 4096 % 64 < n / 4096 % 64 ∨ m / 4096 % 64 = n / 4096 % 64 ∧
              (m / 64 % 64 < n / 64 % 64 ∨ m / 64 % 64 = n / 64 % 64 ∧ m % 64 < n % 64)) := by
          have hquotients : ∀ k : Nat, k / 4096 = k / 64 / 64 ∧ k / 262144 = k / 4096 / 64 := by
            intro k
            rw [Nat.div_div_eq_div_mul, Nat.div_div_eq_div_mul]
            exact ⟨rfl, rfl⟩
          have hm := hquotients m
          have hn := hquotients n
          rw [Nat.mod_eq_of_lt (by omega : m / 262144 < 8), Nat.mod_eq_of_lt (by omega : n / 262144 < 8)]
          omega
        refine digit_cons_lt (by omega) (hdigits.imp_right (And.imp_right fun hrest => ?_))
        refine digit_cons_lt (by omega) (hrest.imp_right (And.imp_right fun hrest => ?_))
        refine digit_cons_lt (by omega) (hrest.imp_right (And.imp_right fun hlast => ?_))
        exact digit_cons_lt (by omega) (.inl hlast)

/-- **Texts are in the order of their bytes.** -/
theorem bytes_lt {a b : String} (h : a < b) : bytes a < bytes b := by
  rw [bytes_eq, bytes_eq]
  have h : List.Lex (fun c d => c < d) a.toList b.toList := h
  generalize a.toList = cs, b.toList = ds at h
  induction h with
  | @nil d ds =>
    rw [List.flatMap_nil, List.flatMap_cons]
    cases hbytes : String.utf8EncodeChar d with
    | nil => exact absurd hbytes String.utf8EncodeChar_ne_nil
    | cons byte bytes => exact List.Lex.nil
  | @rel c cs d ds hcd => exact encode_lt hcd _ _
  | @cons c cs ds _ ih => exact List.append_left_lt ih

end TypeAhead.Text
