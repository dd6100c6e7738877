import FileCensus.Text.Utf8

/-!
# The bytes of characters

The bytes of a text are those of its characters in order. A character below 128 is its own byte, and
no byte of any other character is below 128; so such a byte stands in a text exactly where its
character does.
-/

namespace FileCensus.Utf8

/-- The bytes of a list of characters. -/
def bytesOf (s : List Char) : Bytes := s.flatMap String.utf8EncodeChar

theorem bytesOf_cons (c : Char) (s : List Char) :
    bytesOf (c :: s) = String.utf8EncodeChar c ++ bytesOf s := rfl

@[simp] theorem bytesOf_append (s t : List Char) : bytesOf (s ++ t) = bytesOf s ++ bytesOf t :=
  List.flatMap_append

theorem encode_ofList (s : List Char) : encode (String.ofList s) = bytesOf s := by
  simp [encode, bytesOf, List.utf8Encode, List.data_toByteArray]

theorem encode_eq_bytesOf (s : String) : encode s = bytesOf s.toList := by
  rw [← encode_ofList, String.ofList_toList]

theorem utf8EncodeChar_ascii {c : Char} (h : c.toNat < 128) :
    String.utf8EncodeChar c = [UInt8.ofNat c.toNat] := by
  rw [String.utf8EncodeChar]
  exact if_pos (Nat.le_of_lt_succ h)

theorem bytesOf_cons_ascii {c : Char} (h : c.toNat < 128) (s : List Char) :
    bytesOf (c :: s) = UInt8.ofNat c.toNat :: bytesOf s := by
  rw [bytesOf_cons, utf8EncodeChar_ascii h]
  rfl

/-- Only a character below 128 has a byte below 128. -/
theorem toNat_of_mem_utf8EncodeChar {c : Char} {b : UInt8} (hb : b ∈ String.utf8EncodeChar c)
    (h : b.toNat < 128) : c.toNat = b.toNat := by
  have hlt : c.val.toNat < 0x110000 := by
    have := c.valid
    simp only [UInt32.isValidChar, Nat.isValidChar] at this
    omega
  simp only [String.utf8EncodeChar] at hb
  split at hb
  · simp only [List.mem_singleton] at hb
    subst hb
    rw [UInt8.toNat_ofNat', Char.toNat]
    omega
  · split at hb
    · simp only [List.mem_cons, List.not_mem_nil, or_false] at hb
      rcases hb with rfl | rfl <;> simp only [UInt8.toNat_ofNat'] at h <;> omega
    · split at hb
      · simp only [List.mem_cons, List.not_mem_nil, or_false] at hb
        rcases hb with rfl | rfl | rfl <;> simp only [UInt8.toNat_ofNat'] at h <;> omega
      · simp only [List.mem_cons, List.not_mem_nil, or_false] at hb
        rcases hb with rfl | rfl | rfl | rfl <;> simp only [UInt8.toNat_ofNat'] at h <;> omega

/-- A byte below 128 in the bytes of a text is a character of the text. -/
theorem mem_of_mem_bytesOf {s : List Char} {c : Char} (hc : c.toNat < 128)
    (h : UInt8.ofNat c.toNat ∈ bytesOf s) : c ∈ s := by
  obtain ⟨d, hd, hb⟩ := List.mem_flatMap.1 h
  have hbyte : (UInt8.ofNat c.toNat).toNat = c.toNat := by
    rw [UInt8.toNat_ofNat']
    omega
  have hdc : d.toNat = c.toNat := by
    rw [toNat_of_mem_utf8EncodeChar hb (by omega), hbyte]
  rwa [← Char.toNat_inj.1 hdc]

end FileCensus.Utf8
