import FileCensus.Proofs.Encoding

/-!
# The order of texts is that of their bytes

The bytes of a character come before those of every later character, whatever follows either of them.
So texts in ascending order have their bytes in ascending order.
-/

namespace FileCensus.Utf8

/-- A character has one to four bytes. Its value says how many and what they are. -/
theorem utf8EncodeChar_cases (c : Char) :
    (c.toNat < 0x80 ∧ String.utf8EncodeChar c = [UInt8.ofNat c.toNat]) ∨
    (0x80 ≤ c.toNat ∧ c.toNat < 0x800 ∧ String.utf8EncodeChar c =
      [UInt8.ofNat (c.toNat / 64 % 32 + 192), UInt8.ofNat (c.toNat % 64 + 128)]) ∨
    (0x800 ≤ c.toNat ∧ c.toNat < 0x10000 ∧ String.utf8EncodeChar c =
      [UInt8.ofNat (c.toNat / 4096 % 16 + 224), UInt8.ofNat (c.toNat / 64 % 64 + 128),
        UInt8.ofNat (c.toNat % 64 + 128)]) ∨
    (0x10000 ≤ c.toNat ∧ c.toNat < 0x110000 ∧ String.utf8EncodeChar c =
      [UInt8.ofNat (c.toNat / 262144 % 8 + 240), UInt8.ofNat (c.toNat / 4096 % 64 + 128),
        UInt8.ofNat (c.toNat / 64 % 64 + 128), UInt8.ofNat (c.toNat % 64 + 128)]) := by
  have hlt : c.toNat < 0x110000 := by
    have := c.valid
    simp only [UInt32.isValidChar, Nat.isValidChar] at this
    simp only [Char.toNat]
    omega
  simp only [String.utf8EncodeChar]
  simp only [Char.toNat] at hlt ⊢
  split
  · exact .inl ⟨by omega, rfl⟩
  · split
    · exact .inr (.inl ⟨by omega, by omega, rfl⟩)
    · split
      · exact .inr (.inr (.inl ⟨by omega, by omega, rfl⟩))
      · exact .inr (.inr (.inr ⟨by omega, by omega, rfl⟩))

/-- The bytes of two characters differ at a place that both have. -/
theorem utf8EncodeChar_append_lt {c d : Char} (h : c < d) (x y : Bytes) :
    String.utf8EncodeChar c ++ x < String.utf8EncodeChar d ++ y := by
  have hlt : c.toNat < d.toNat := UInt32.lt_iff_toNat_lt.1 h
  -- With different numbers of bytes the first ones decide, and otherwise the digits to base 64 do.
  rcases utf8EncodeChar_cases c with ⟨hc, hbytes⟩ | ⟨_, hc, hbytes⟩ | ⟨_, hc, hbytes⟩ |
      ⟨_, hc, hbytes⟩ <;>
    rcases utf8EncodeChar_cases d with ⟨_, hbytes'⟩ | ⟨_, _, hbytes'⟩ | ⟨_, _, hbytes'⟩ |
      ⟨_, _, hbytes'⟩ <;>
    simp only [hbytes, hbytes', List.cons_append, List.nil_append, List.cons_lt_cons_iff,
      UInt8.lt_iff_toNat_lt, ← UInt8.toNat_inj, UInt8.toNat_ofNat'] <;>
    simp (disch := omega) only [Nat.mod_eq_of_lt] <;>
    omega

theorem bytesOf_lt {s t : List Char} (h : s < t) : bytesOf s < bytesOf t := by
  induction s generalizing t with
  | nil =>
    cases t with
    | nil => exact absurd h (List.lt_irrefl _)
    | cons d t =>
      rw [bytesOf_cons]
      cases hbytes : String.utf8EncodeChar d with
      | nil => exact absurd hbytes (String.utf8EncodeChar_ne_nil)
      | cons b bytes => exact List.nil_lt_cons _ _
  | cons c s ih =>
    cases t with
    | nil => exact absurd h (List.not_lt_nil _)
    | cons d t =>
      rw [bytesOf_cons, bytesOf_cons]
      rcases List.cons_lt_cons_iff.1 h with hlt | ⟨rfl, hrest⟩
      · exact utf8EncodeChar_append_lt hlt _ _
      · exact List.append_left_lt (ih hrest)

theorem encode_lt {s t : String} (h : s < t) : encode s < encode t := by
  rw [encode_eq_bytesOf, encode_eq_bytesOf]
  exact bytesOf_lt (String.lt_iff.1 h)

end FileCensus.Utf8
