import FileCensus.Proofs.DigestBlocks
import FileCensus.Proofs.LineEndings

/-!
# Digests of deliveries

However content is delivered, in pieces of any sizes and with any interruptions between them, its
digest is that of the whole content, or of the content with its line endings normalized. If reading
fails there is no digest, and the first failure that is no interruption is told. So a text has one
digest, whatever its platform ends lines with.
-/

namespace FileCensus

/-- What a digest takes of some content. -/
def HashMode.view : HashMode → Bytes → Bytes
  | .binary, bytes => bytes
  | .text, bytes => Content.normalizeLineEndings bytes

namespace Content

namespace Delivery

def content : Delivery → Bytes
  | .bytes chunk => chunk
  | .failure _ => []

/-- The failure at which reading ends. An interruption does not end it. -/
def ending? : Delivery → Option IoFault
  | .bytes _ => none
  | .failure cause => if cause.kind = .interrupted then none else some cause

end Delivery

namespace Progress

variable {mode : HashMode} {p : Progress} {bytes : Bytes}

/-- The bytes that were read but that the digest has not taken yet. -/
def pending (p : Progress) : Bytes := if p.waiting then [carriageReturn] else []

/-- The progress after some bytes: what the digest has taken and what waits stand for all of them,
whatever follows. -/
structure After (mode : HashMode) (p : Progress) (bytes : Bytes) : Prop where
  taken : ∃ taken, p.digest = Md5.start.absorbAll taken ∧
    ∀ rest, mode.view (bytes ++ rest) = taken ++ mode.view (p.pending ++ rest)
  waits : p.waiting → mode = .text

theorem after_start (mode : HashMode) : start.After mode [] := ⟨⟨[], rfl, fun _ => rfl⟩, nofun⟩

/-- What one byte makes the digest take, and how the bytes after it are taken then. -/
theorem textByte_cases (p : Progress) (b : UInt8) :
    ∃ taken, (p.textByte b).digest = p.digest.absorbAll taken ∧
      ∀ rest, normalizeLineEndings (p.pending ++ b :: rest) =
        taken ++ normalizeLineEndings ((p.textByte b).pending ++ rest) := by
  obtain ⟨digest, waiting⟩ := p
  have hpending : ∀ d, (⟨d, true⟩ : Progress).pending = [carriageReturn] := fun _ => rfl
  have hnone : ∀ d, (⟨d, false⟩ : Progress).pending = [] := fun _ => rfl
  cases waiting with
  | false =>
    by_cases hb : b = carriageReturn
    · have hstep : (⟨digest, false⟩ : Progress).textByte b = ⟨digest, true⟩ := if_pos hb
      rw [hstep, hb]
      exact ⟨[], rfl, fun rest => rfl⟩
    · have hstep : (⟨digest, false⟩ : Progress).textByte b = ⟨digest.absorb b, false⟩ := if_neg hb
      rw [hstep]
      exact ⟨[b], rfl, fun rest => normalizeLineEndings_cons hb rest⟩
  | true =>
    by_cases hfeed : b = lineFeed
    · have hstep : (⟨digest, true⟩ : Progress).textByte b = ⟨digest.absorb lineFeed, false⟩ :=
        if_pos hfeed
      rw [hstep, hfeed]
      exact ⟨[lineFeed], rfl, normalizeLineEndings_pair⟩
    · -- The carriage return that waits is an ending of its own.
      have halone : ∀ rest, normalizeLineEndings (carriageReturn :: b :: rest) =
          lineFeed :: normalizeLineEndings (b :: rest) :=
        fun rest => normalizeLineEndings_return fun he => hfeed (Option.some.inj he)
      by_cases hb : b = carriageReturn
      · have hstep : (⟨digest, true⟩ : Progress).textByte b = ⟨digest.absorb lineFeed, true⟩ :=
          (if_neg hfeed).trans (if_pos hb)
        rw [hstep]
        refine ⟨[lineFeed], rfl, fun rest => (halone rest).trans ?_⟩
        rw [hb]
        rfl
      · have hstep : (⟨digest, true⟩ : Progress).textByte b =
            ⟨(digest.absorb lineFeed).absorb b, false⟩ := (if_neg hfeed).trans (if_neg hb)
        rw [hstep]
        refine ⟨[lineFeed, b], rfl, fun rest => (halone rest).trans ?_⟩
        rw [normalizeLineEndings_cons hb]
        rfl

theorem After.textByte (h : p.After .text bytes) (b : UInt8) :
    (p.textByte b).After .text (bytes ++ [b]) := by
  obtain ⟨taken, hdigest, hview⟩ := h.taken
  obtain ⟨more, hmore, hstep⟩ := p.textByte_cases b
  refine ⟨⟨taken ++ more, ?_, fun rest => ?_⟩, fun _ => rfl⟩
  · rw [hmore, hdigest, Md5.State.absorbAll_append]
  · rw [List.append_assoc, List.singleton_append, hview, List.append_assoc]
    exact congrArg (taken ++ ·) (hstep rest)

theorem After.chunk (h : p.After mode bytes) (piece : Bytes) :
    (p.chunk mode piece).After mode (bytes ++ piece) := by
  cases mode with
  | binary =>
    have hwaiting : p.waiting = false := by
      cases hwaits : p.waiting with
      | false => rfl
      | true => exact absurd (h.waits hwaits) nofun
    have hpending : p.pending = [] := by rw [pending, hwaiting]; rfl
    have hpending' : (p.chunk .binary piece).pending = [] := hpending
    obtain ⟨taken, hdigest, hview⟩ := h.taken
    refine ⟨⟨taken ++ piece, ?_, fun rest => ?_⟩, h.waits⟩
    · rw [Md5.State.absorbAll_append, ← hdigest]
      rfl
    · rw [hpending', List.append_assoc, hview, hpending, List.append_assoc]
      rfl
  | text =>
    rw [Progress.chunk]
    induction piece generalizing p bytes with
    | nil => rwa [List.append_nil]
    | cons b piece ih =>
      have hrest := ih (h.textByte b)
      rwa [List.append_assoc, List.singleton_append] at hrest

/-- A carriage return that still waits at the end is a line ending. -/
theorem After.finish (h : p.After mode bytes) : p.finish = Md5.digest (mode.view bytes) := by
  obtain ⟨taken, hdigest, hview⟩ := h.taken
  have hall := hview []
  rw [List.append_nil, List.append_nil] at hall
  rw [Md5.digest, hall, Md5.State.absorbAll_append, ← hdigest, Progress.finish, pending]
  cases hwaits : p.waiting with
  | false => cases mode <;> rfl
  | true =>
    rw [h.waits hwaits]
    rfl

end Progress

/-! ### Whole deliveries -/

/-- The invariant is that the progress is the one after all bytes so far; an interruption leaves it
alone. -/
theorem digestFrom_after {mode : HashMode} {p : Progress} {bytes : Bytes} (h : p.After mode bytes)
    (deliveries : List Delivery) :
    digestFrom mode p deliveries =
      match deliveries.findSome? Delivery.ending? with
      | some cause => .error cause
      | none => .ok (Md5.digest (mode.view (bytes ++ deliveries.flatMap Delivery.content))) := by
  induction deliveries generalizing p bytes with
  | nil =>
    rw [List.flatMap_nil, List.append_nil]
    exact congrArg Except.ok h.finish
  | cons delivery deliveries ih =>
    cases delivery with
    | bytes piece =>
      rw [digestFrom, ih (h.chunk piece), List.append_assoc]
      rfl
    | failure cause =>
      rw [digestFrom, List.findSome?_cons, Delivery.ending?]
      by_cases hkind : cause.kind = .interrupted
      · rw [if_pos hkind, if_pos hkind, ih h]
        rfl
      · rw [if_neg hkind, if_neg hkind]

/-- The digest of deliveries in any pieces is that of their content as a whole, block by block and in
lower-case hexadecimal; a failure ends it unless it is an interruption. -/
theorem digest_deliveries (mode : HashMode) (deliveries : List Delivery) :
    (digest mode deliveries =
      match deliveries.findSome? Delivery.ending? with
      | some cause => .error cause
      | none => .ok (Md5.ofMessage (mode.view (deliveries.flatMap Delivery.content)))) ∧
    ∀ text, digest mode deliveries = .ok text →
      text.length = 32 ∧ ∀ c ∈ text.toList, c ∈ Md5.hexDigits := by
  have hdigest := digestFrom_after (Progress.after_start mode) deliveries
  rw [List.nil_append, Md5.digest_eq_ofMessage, ← digest] at hdigest
  refine ⟨hdigest, fun text htext => ?_⟩
  rw [hdigest] at htext
  split at htext
  · simp at htext
  · rw [← Except.ok.inj htext]
    exact ⟨Md5.length_hex _, fun c hc => Md5.mem_hexDigits_of_mem_hex hc⟩

def interruption : Delivery := .failure (.ofKind .interrupted)

/-- A line ending that is delivered in two pieces is one line feed; a failure leaves no digest. -/
theorem digest_deliveries_split :
    digest .text [.bytes [0x61, carriageReturn], interruption, .bytes [lineFeed, 0x62]] =
      .ok (Md5.ofMessage [0x61, lineFeed, 0x62]) ∧
    (Md5.ofMessage [0x61, lineFeed, 0x62]).length = 32 ∧
    digest .binary [.bytes [0x61], interruption, .failure (.system .denied), .failure .zeroByte] =
      .error (.system .denied) := by
  obtain ⟨htext, hhex⟩ := digest_deliveries .text
    [.bytes [0x61, carriageReturn], interruption, .bytes [lineFeed, 0x62]]
  obtain ⟨hfailed, -⟩ := digest_deliveries .binary
    [.bytes [0x61], interruption, .failure (.system .denied), .failure .zeroByte]
  exact ⟨htext, (hhex _ htext).1, hfailed⟩

/-- Deliveries that bring all of some content. -/
structure Delivers (deliveries : List Delivery) (bytes : Bytes) : Prop where
  unfailing : ∀ delivery ∈ deliveries, delivery.ending? = none
  content : deliveries.flatMap Delivery.content = bytes

theorem Delivers.digest {deliveries : List Delivery} {bytes : Bytes} (h : Delivers deliveries bytes)
    (mode : HashMode) : digest mode deliveries = .ok (Md5.digest (mode.view bytes)) := by
  have hnone : deliveries.findSome? Delivery.ending? = none := List.findSome?_eq_none_iff.2 h.unfailing
  rw [Content.digest, digestFrom_after (Progress.after_start mode), hnone, List.nil_append, h.content]

/-- The digest of a text does not depend on what ends its lines: it is the binary digest of the text
with line feeds. -/
theorem digest_text_eq_binary :
    (∀ (terminated : Bool) (lines : List Line) (ending : LineEnding)
        (deliveries feeds : List Delivery),
      Delivers deliveries (fileOf ending terminated lines) →
      Delivers feeds (fileOf .lineFeed terminated lines) →
        digest .text deliveries = digest .binary feeds ∧ ∃ text, digest .binary feeds = .ok text) ∧
    (∀ (bytes : Bytes) (deliveries normalized : List Delivery),
      Delivers deliveries bytes → Delivers normalized (normalizeLineEndings bytes) →
        digest .text deliveries = digest .binary normalized) ∧
    ∀ bytes, normalizeLineEndings (normalizeLineEndings bytes) = normalizeLineEndings bytes := by
  refine ⟨?_, ?_, normalizeLineEndings_idem⟩
  · intro terminated lines ending deliveries feeds hdeliveries hfeeds
    rw [hdeliveries.digest, hfeeds.digest, HashMode.view, HashMode.view,
      normalizeLineEndings_fileOf]
    exact ⟨rfl, _, rfl⟩
  · intro bytes deliveries normalized hdeliveries hnormalized
    rw [hdeliveries.digest, hnormalized.digest]
    rfl

/-- Between two letters, an empty line that is ended by a carriage return stays one line. -/
theorem digest_text_empty_line :
    digest .text [.bytes [0x61, carriageReturn], interruption, .bytes [carriageReturn, 0x62]] =
      digest .binary [.bytes [0x61, lineFeed, lineFeed], .bytes [0x62]] ∧
    digest .text [.bytes [0x61, carriageReturn, lineFeed]] = digest .binary [.bytes [0x61, lineFeed]] := by
  obtain ⟨hlines, hbytes, -⟩ := digest_text_eq_binary
  let lines : List Line :=
    [⟨[0x61], by decide, by decide⟩, ⟨[], by decide, by decide⟩, ⟨[0x62], by decide, by decide⟩]
  exact ⟨(hlines false lines .carriageReturn _ _ ⟨by decide, rfl⟩ ⟨by decide, rfl⟩).1,
    hbytes [0x61, carriageReturn, lineFeed] _ _ ⟨by decide, rfl⟩ ⟨by decide, rfl⟩⟩

end Content

end FileCensus
