import FileCensus.Proofs.Encoding

/-!
# Reading bytes that may be damaged

Bytes that are read as some text without a replacement character in it are exactly the bytes of that
text. So a damaged name is never taken for a plain one.
-/

namespace FileCensus.Utf8

theorem tail_cons_eq_whole {length value v : Nat} {low high : UInt8} {ranges : List (UInt8 × UInt8)}
    {s more : Bytes} (h : tail length value ((low, high) :: ranges) s = .whole v more) :
    ∃ b rest, s = b :: rest ∧ low.toNat ≤ b.toNat ∧ b.toNat ≤ high.toNat ∧
      tail (length + 1) (value * 64 + (b.toNat - 0x80)) ranges rest = .whole v more := by
  cases s with
  | nil => simp [tail] at h
  | cons b rest =>
    rw [tail] at h
    split at h
    · rename_i hb
      exact ⟨b, rest, rfl, UInt8.le_iff_toNat_le.1 hb.1, UInt8.le_iff_toNat_le.1 hb.2, h⟩
    · simp at h

theorem tail_nil_eq_whole {length value v : Nat} {s more : Bytes}
    (h : tail length value [] s = .whole v more) : value = v ∧ s = more := by
  simpa [tail] using h

theorem utf8EncodeChar_ofNat {v : Nat} (hv : v.isValidChar) :
    String.utf8EncodeChar (Char.ofNat v) =
      if v ≤ 0x7f then [UInt8.ofNat v]
      else if v ≤ 0x7ff then [UInt8.ofNat (v / 64 % 32 + 192), UInt8.ofNat (v % 64 + 128)]
      else if v ≤ 0xffff then
        [UInt8.ofNat (v / 4096 % 16 + 224), UInt8.ofNat (v / 64 % 64 + 128), UInt8.ofNat (v % 64 + 128)]
      else [UInt8.ofNat (v / 262144 % 8 + 240), UInt8.ofNat (v / 4096 % 64 + 128),
        UInt8.ofNat (v / 64 % 64 + 128), UInt8.ofNat (v % 64 + 128)] := by
  have : (Char.ofNat v).val.toNat = v := by
    rw [Char.ofNat, dif_pos hv]
    rfl
  simp only [String.utf8EncodeChar, this]

theorem eq_ofNat {b : UInt8} {n : Nat} (h : b.toNat = n) : b = UInt8.ofNat n := by
  rw [← h, UInt8.ofNat_toNat]

theorem encode_one {lead : UInt8} (h : lead.toNat < 128) :
    [lead] = String.utf8EncodeChar (Char.ofNat lead.toNat) := by
  have hv : lead.toNat.isValidChar := .inl (by omega)
  rw [utf8EncodeChar_ofNat hv, if_pos (by omega), UInt8.ofNat_toNat]

theorem encode_two {lead b : UInt8} {v : Nat} (hlead : 192 ≤ lead.toNat ∧ lead.toNat < 224)
    (hb : 128 ≤ b.toNat ∧ b.toNat < 192) (he : v = lead.toNat % 32 * 64 + (b.toNat - 128))
    (low : 0x80 ≤ v) : [lead, b] = String.utf8EncodeChar (Char.ofNat v) := by
  have hv : v.isValidChar := .inl (by omega)
  rw [utf8EncodeChar_ofNat hv, if_neg (by omega), if_pos (by omega), ← eq_ofNat (b := lead) (by omega),
    ← eq_ofNat (b := b) (by omega)]

theorem encode_three {lead b c : UInt8} {v : Nat} (hlead : 224 ≤ lead.toNat ∧ lead.toNat < 240)
    (hb : 128 ≤ b.toNat ∧ b.toNat < 192) (hc : 128 ≤ c.toNat ∧ c.toNat < 192)
    (he : v = (lead.toNat % 16 * 64 + (b.toNat - 128)) * 64 + (c.toNat - 128)) (low : 0x800 ≤ v)
    (hv : v.isValidChar) : [lead, b, c] = String.utf8EncodeChar (Char.ofNat v) := by
  rw [utf8EncodeChar_ofNat hv, if_neg (by omega), if_neg (by omega), if_pos (by omega),
    ← eq_ofNat (b := lead) (by omega), ← eq_ofNat (b := b) (by omega),
    ← eq_ofNat (b := c) (by omega)]

theorem encode_four {lead b c d : UInt8} {v : Nat} (hlead : 240 ≤ lead.toNat ∧ lead.toNat < 248)
    (hb : 128 ≤ b.toNat ∧ b.toNat < 192) (hc : 128 ≤ c.toNat ∧ c.toNat < 192)
    (hd : 128 ≤ d.toNat ∧ d.toNat < 192)
    (he : v = ((lead.toNat % 8 * 64 + (b.toNat - 128)) * 64 + (c.toNat - 128)) * 64
      + (d.toNat - 128)) (low : 0x10000 ≤ v) (high : v < 0x110000) :
    [lead, b, c, d] = String.utf8EncodeChar (Char.ofNat v) := by
  have hv : v.isValidChar := .inr ⟨by omega, high⟩
  rw [utf8EncodeChar_ofNat hv, if_neg (by omega), if_neg (by omega), if_neg (by omega),
    ← eq_ofNat (b := lead) (by omega), ← eq_ofNat (b := b) (by omega),
    ← eq_ofNat (b := c) (by omega), ← eq_ofNat (b := d) (by omega)]

/-- Which bytes may follow a leading byte: the bound of the first one keeps out values that fewer
bytes can give, halves of pairs and values beyond the last character. -/
theorem continuation_eq_some {lead : UInt8} {ranges : List (UInt8 × UInt8)}
    (h : continuation lead = some ranges) :
    (lead.toNat < 128 ∧ ranges = []) ∨
    (194 ≤ lead.toNat ∧ lead.toNat < 224 ∧ ranges = [(0x80, 0xBF)]) ∨
    (∃ low high : UInt8, 224 ≤ lead.toNat ∧ lead.toNat < 240 ∧ 128 ≤ low.toNat ∧ high.toNat < 192 ∧
      (lead.toNat = 224 → 160 ≤ low.toNat) ∧ (lead.toNat = 237 → high.toNat < 160) ∧
      ranges = [(low, high), (0x80, 0xBF)]) ∨
    ∃ low high : UInt8, 240 ≤ lead.toNat ∧ lead.toNat < 245 ∧ 128 ≤ low.toNat ∧ high.toNat < 192 ∧
      (lead.toNat = 240 → 144 ≤ low.toNat) ∧ (lead.toNat = 244 → high.toNat < 144) ∧
      ranges = [(low, high), (0x80, 0xBF), (0x80, 0xBF)] := by
  simp only [continuation, UInt8.lt_iff_toNat_lt, ← UInt8.toNat_inj, UInt8.reduceToNat] at h
  split at h
  · rename_i h1
    exact .inl ⟨h1, (Option.some.inj h).symm⟩
  split at h
  · simp at h
  split at h
  · rename_i h1 h2 h3
    exact .inr (.inl ⟨by omega, h3, (Option.some.inj h).symm⟩)
  refine .inr (.inr ?_)
  split at h
  · rename_i h1 h2 h3 h4
    exact .inl ⟨_, _, by omega, by omega, by decide, by decide, fun _ => by decide, by omega,
      (Option.some.inj h).symm⟩
  split at h
  · rename_i h1 h2 h3 h4 h5
    exact .inl ⟨_, _, by omega, by omega, by decide, by decide, by omega, fun _ => by decide,
      (Option.some.inj h).symm⟩
  split at h
  · rename_i h1 h2 h3 h4 h5 h6
    exact .inl ⟨_, _, by omega, by omega, by decide, by decide, by omega, by omega,
      (Option.some.inj h).symm⟩
  refine .inr ?_
  split at h
  · rename_i h1 h2 h3 h4 h5 h6 h7
    exact ⟨_, _, by omega, by omega, by decide, by decide, fun _ => by decide, by omega,
      (Option.some.inj h).symm⟩
  split at h
  · rename_i h1 h2 h3 h4 h5 h6 h7 h8
    exact ⟨_, _, by omega, by omega, by decide, by decide, by omega, by omega,
      (Option.some.inj h).symm⟩
  split at h
  · rename_i h1 h2 h3 h4 h5 h6 h7 h8 h9
    exact ⟨_, _, by omega, by omega, by decide, by decide, by omega, fun _ => by decide,
      (Option.some.inj h).symm⟩
  · simp at h

/-- What is read as one whole character are the bytes of the character. -/
theorem first_eq_whole {lead : UInt8} {s more : Bytes} {v : Nat} (h : first lead s = .whole v more) :
    lead :: s = String.utf8EncodeChar (Char.ofNat v) ++ more := by
  have hlow : (0x80 : UInt8).toNat = 128 := rfl
  have hhigh : (0xBF : UInt8).toNat = 191 := rfl
  rw [first] at h
  split at h
  · simp at h
  · rename_i ranges hranges
    rcases continuation_eq_some hranges with ⟨hlead, rfl⟩ | ⟨h1, h2, rfl⟩ |
      ⟨low, high, h1, h2, h3, h4, h5, h6, rfl⟩ | ⟨low, high, h1, h2, h3, h4, h5, h6, rfl⟩
    · obtain ⟨hv, rfl⟩ := tail_nil_eq_whole h
      rw [← hv]
      exact congrArg (· ++ s) (encode_one hlead)
    · obtain ⟨b, rest, rfl, hb1, hb2, h⟩ := tail_cons_eq_whole h
      obtain ⟨hv, rfl⟩ := tail_nil_eq_whole h
      change lead.toNat % 32 * 64 + (b.toNat - 128) = v at hv
      exact congrArg (· ++ rest) (encode_two ⟨by omega, by omega⟩ ⟨by omega, by omega⟩ hv.symm
        (by omega))
    · obtain ⟨b, rest, rfl, hb1, hb2, h⟩ := tail_cons_eq_whole h
      obtain ⟨c, rest, rfl, hc1, hc2, h⟩ := tail_cons_eq_whole h
      obtain ⟨hv, rfl⟩ := tail_nil_eq_whole h
      change (lead.toNat % 16 * 64 + (b.toNat - 128)) * 64 + (c.toNat - 128) = v at hv
      have hvalid : v.isValidChar := by
        rw [Nat.isValidChar]
        omega
      exact congrArg (· ++ rest) (encode_three ⟨by omega, by omega⟩ ⟨by omega, by omega⟩
        ⟨by omega, by omega⟩ hv.symm (by omega) hvalid)
    · obtain ⟨b, rest, rfl, hb1, hb2, h⟩ := tail_cons_eq_whole h
      obtain ⟨c, rest, rfl, hc1, hc2, h⟩ := tail_cons_eq_whole h
      obtain ⟨d, rest, rfl, hd1, hd2, h⟩ := tail_cons_eq_whole h
      obtain ⟨hv, rfl⟩ := tail_nil_eq_whole h
      change ((lead.toNat % 8 * 64 + (b.toNat - 128)) * 64 + (c.toNat - 128)) * 64
        + (d.toNat - 128) = v at hv
      exact congrArg (· ++ rest) (encode_four ⟨by omega, by omega⟩ ⟨by omega, by omega⟩
        ⟨by omega, by omega⟩ ⟨by omega, by omega⟩ hv.symm (by omega) (by omega))

/-- Bytes in which nothing was replaced are those of what was read. -/
theorem bytesOf_replaceFaults {s : Bytes} (h : '\uFFFD' ∉ replaceFaults s) :
    bytesOf (replaceFaults s) = s := by
  fun_induction replaceFaults s with
  | case1 => rfl
  | case2 lead rest value more hfirst ih =>
    rw [bytesOf_cons, ih fun hmem => h (List.mem_cons_of_mem _ hmem), first_eq_whole hfirst]
  | case3 => exact absurd List.mem_cons_self h
  | case4 => exact absurd List.mem_cons_self h

theorem encode_of_decode {bs : Bytes} {s : String} (h : decode bs = .ok s) : encode s = bs := by
  rw [decode] at h
  split at h
  · rename_i text htext
    obtain rfl := Except.ok.inj h
    simp only [String.fromUTF8?] at htext
    split at htext
    · obtain rfl := Option.some.inj htext
      rfl
    · simp at htext
  · simp at h

/-- A text without a replacement character is read of its own bytes only. -/
theorem decodeLossy_eq {bs : Bytes} {s : String} (h : '\uFFFD' ∉ s.toList) :
    decodeLossy bs = s ↔ bs = encode s := by
  constructor
  · intro he
    rw [decodeLossy] at he
    split at he
    · rename_i text hdecode
      rw [← he, encode_of_decode hdecode]
    · rw [← he, String.toList_ofList] at h
      rw [← he, encode_ofList, bytesOf_replaceFaults h]
  · rintro rfl
    exact decodeLossy_encode s

end FileCensus.Utf8
