import FileCensus.Digest.Md5

/-!
# Digests by blocks

The digest takes one byte at a time, and what it computes is the digest of the message as a whole: the
message is padded to full blocks, and these are folded into the chain in their order. It is shown as
32 hexadecimal digits in lower case.
-/

namespace FileCensus.Md5

def blockLength : Nat := 64

/-- The full blocks at the front of some bytes. -/
def blocks (bytes : Bytes) : List Bytes :=
  if _h : blockLength ≤ bytes.length then
    bytes.take blockLength :: blocks (bytes.drop blockLength)
  else []
  termination_by bytes.length
  decreasing_by
    simp only [blockLength, List.length_drop] at *
    omega

def padded (message : Bytes) : Bytes := message ++ padding message.length

/-- The digest of a message, block by block. -/
def ofMessage (message : Bytes) : String :=
  ((blocks (padded message)).foldl (fun chain block => compress chain block.toArray) start.chain).hex

/-- The padding fills the last block. -/
theorem length_padded (message : Bytes) : (padded message).length % blockLength = 0 := by
  simp only [padded, padding, List.length_append, List.length_cons, List.length_replicate,
    List.length_map, List.length_range, blockLength]
  omega

/-! ### Taking bytes -/

theorem absorb_last {s : State} {b : UInt8} (h : s.block.size + 1 = blockLength) :
    s.absorb b = ⟨compress s.chain (s.block.push b), #[], s.count + 1⟩ := by
  rw [State.absorb]
  exact if_pos (by rwa [Array.size_push])

theorem absorb_within {s : State} {b : UInt8} (h : s.block.size + 1 < blockLength) :
    s.absorb b = ⟨s.chain, s.block.push b, s.count + 1⟩ := by
  rw [State.absorb]
  exact if_neg (by rw [Array.size_push]; exact Nat.ne_of_lt h)

theorem count_absorbAll (s : State) (bytes : Bytes) :
    (s.absorbAll bytes).count = s.count + bytes.length := by
  induction bytes generalizing s with
  | nil => rfl
  | cons b bytes ih =>
    have hcount : (s.absorb b).count = s.count + 1 := by
      rw [State.absorb]
      split <;> rfl
    rw [State.absorbAll, List.foldl_cons, ← State.absorbAll, ih, hcount, List.length_cons]
    omega

/-- The bytes that fill a block that was begun are folded into the chain with it. -/
theorem absorbAll_fill {s : State} {bytes : Bytes} (hs : s.block.size < blockLength)
    (h : s.block.size + bytes.length = blockLength) :
    s.absorbAll bytes =
      ⟨compress s.chain (s.block ++ bytes.toArray), #[], s.count + bytes.length⟩ := by
  induction bytes generalizing s with
  | nil =>
    rw [List.length_nil] at h
    omega
  | cons b bytes ih =>
    have hpush : s.block ++ (b :: bytes).toArray = s.block.push b ++ bytes.toArray := by
      rw [List.toArray_cons, Array.push_eq_append, Array.append_assoc]
    rw [List.length_cons] at h ⊢
    rw [State.absorbAll, List.foldl_cons, ← State.absorbAll, hpush]
    cases bytes with
    | nil =>
      rw [absorb_last h, State.absorbAll_nil, Array.append_empty]
      rfl
    | cons c bytes =>
      have hlater : s.block.size + 1 + (c :: bytes).length = blockLength := by omega
      have hwithin : s.block.size + 1 < blockLength := by
        rw [List.length_cons] at hlater
        omega
      have hsize : (s.block.push b).size = s.block.size + 1 := Array.size_push _
      rw [absorb_within hwithin, ih (by rwa [hsize]) (by rwa [hsize])]
      simp only [State.mk.injEq, true_and]
      omega

/-- Full blocks are folded into the chain one after the other. -/
theorem absorbAll_blocks {s : State} {bytes : Bytes} (hs : s.block = #[])
    (h : bytes.length % blockLength = 0) :
    (s.absorbAll bytes).chain =
      (blocks bytes).foldl (fun chain block => compress chain block.toArray) s.chain := by
  induction bytes using blocks.induct generalizing s with
  | case1 bytes hlong ih =>
    have hlength : (bytes.take blockLength).length = blockLength := List.length_take_of_le hlong
    have hempty : s.block.size = 0 := by rw [hs, List.size_toArray, List.length_nil]
    have hfirst : s.absorbAll (bytes.take blockLength) = _ :=
      absorbAll_fill (by rw [hempty]; decide) (by rw [hempty, hlength, Nat.zero_add])
    have hrest : (bytes.drop blockLength).length % blockLength = 0 := by
      rw [List.length_drop]
      simp only [blockLength] at *
      omega
    rw [blocks, dif_pos hlong, List.foldl_cons]
    conv => lhs; rw [← List.take_append_drop blockLength bytes, State.absorbAll_append, hfirst]
    rw [ih rfl hrest, hs, Array.empty_append]
  | case2 bytes hshort =>
    have hnil : bytes = [] := by
      apply List.length_eq_zero_iff.1
      simp only [blockLength] at *
      omega
    rw [blocks, dif_neg hshort, hnil]
    rfl

/-- Taking a message byte by byte gives its digest as a whole. -/
theorem digest_eq_ofMessage (message : Bytes) : digest message = ofMessage message := by
  rw [digest, State.finish, count_absorbAll, ← State.absorbAll_append]
  have hcount : start.count + message.length = message.length := Nat.zero_add _
  have hblocks : (start.absorbAll (padded message)).chain = _ :=
    absorbAll_blocks rfl (length_padded message)
  rw [hcount, ← padded, hblocks]
  rfl

example : digest [0x61, 0x62, 0x63] = "900150983cd24fb0d6963f7d28e17f72" := by decide +kernel

/-! ### How a digest is shown -/

def hexDigits : List Char := "0123456789abcdef".toList

theorem hexDigit_mem {n : Nat} (h : n < 16) : hexDigit n ∈ hexDigits := by
  have hall : ∀ n : Fin 16, hexDigit n ∈ hexDigits := by decide
  exact hall ⟨n, h⟩

theorem hexByte_mem {byte : UInt8} {c : Char} (h : c ∈ hexByte byte) : c ∈ hexDigits := by
  have hbyte := byte.toNat_lt
  rcases List.mem_cons.1 h with rfl | h
  · exact hexDigit_mem (by omega)
  · rw [List.mem_singleton.1 h]
    exact hexDigit_mem (by omega)

theorem hexWord_mem {word : UInt32} {c : Char} (h : c ∈ hexWord word) : c ∈ hexDigits := by
  obtain ⟨i, -, hc⟩ := List.mem_flatMap.1 h
  exact hexByte_mem hc

theorem length_hexWord (word : UInt32) : (hexWord word).length = 8 := rfl

theorem mem_hexDigits_of_mem_hex {chain : Chain} {c : Char} (h : c ∈ chain.hex.toList) :
    c ∈ hexDigits := by
  rw [Chain.hex, String.toList_ofList] at h
  simp only [List.mem_append] at h
  rcases h with ((h | h) | h) | h <;> exact hexWord_mem h

theorem length_hex (chain : Chain) : chain.hex.length = 32 := by
  rw [Chain.hex, String.length_ofList]
  simp only [List.length_append, length_hexWord]

end FileCensus.Md5
