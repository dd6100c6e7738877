import FileCensus.Proofs.EqualReports
import FileCensus.Proofs.Numerals

/-!
# Captured values

A record is its path and, for each attribute, a captured value or none. Comparisons look at the texts
of the values, and different values of an attribute have different texts. A mask leaves the values
that it keeps as they are and makes the others unknown.
-/

namespace FileCensus

/-- What the captured values of an attribute are. -/
def Attribute.Value : Attribute → Type
  | .size => UInt64
  | .modified => Int64
  | .md5 => String
  | .permissions => String

instance : (a : Attribute) → DecidableEq a.Value
  | .size => inferInstanceAs (DecidableEq UInt64)
  | .modified => inferInstanceAs (DecidableEq Int64)
  | .md5 => inferInstanceAs (DecidableEq String)
  | .permissions => inferInstanceAs (DecidableEq String)

namespace Record

def captured (r : Record) : (a : Attribute) → Option a.Value
  | .size => r.size
  | .modified => r.modified
  | .md5 => r.md5
  | .permissions => r.permissions

theorem ext_captured {l r : Record} (hpath : l.path = r.path)
    (h : ∀ a, l.captured a = r.captured a) : l = r := by
  have hsize : l.size = r.size := h .size
  have hmodified : l.modified = r.modified := h .modified
  have hmd5 : l.md5 = r.md5 := h .md5
  have hpermissions : l.permissions = r.permissions := h .permissions
  cases l
  cases r
  simp_all

@[simp] theorem captured_unknown (path : NormalPath) (a : Attribute) :
    (unknown path).captured a = none := by
  cases a <;> rfl

/-- Texts are equal exactly if the values are. -/
theorem value_eq_iff {l r : Record} {a : Attribute} :
    l.value a = r.value a ↔ l.captured a = r.captured a := by
  cases a with
  | size => exact Option.map_inj_right fun _ _ h => UInt64.toNat_inj.1 (Numeral.ofNat_inj.1 h)
  | modified => exact Option.map_inj_right fun _ _ h => Int64.toInt_inj.1 (Numeral.ofInt_inj.1 h)
  | md5 => exact Iff.rfl
  | permissions => exact Iff.rfl

theorem value_eq_none {r : Record} {a : Attribute} : r.value a = none ↔ r.captured a = none := by
  have h := value_eq_iff (l := r) (r := unknown r.path) (a := a)
  rw [captured_unknown] at h
  rw [← h]
  cases a <;> exact Iff.rfl

@[simp] theorem path_mask (keep : Attribute → Bool) (r : Record) : (r.mask keep).path = r.path := by
  rw [mask]
  refine List.foldlRecOn Attribute.all _ (motive := fun masked : Record => masked.path = r.path) rfl ?_
  intro masked hmasked a _
  split
  · exact hmasked
  · rw [path_without, hmasked]

theorem captured_mask (keep : Attribute → Bool) (r : Record) (a : Attribute) :
    (r.mask keep).captured a = if keep a then r.captured a else none := by
  have hvalue := value_mask keep r a
  cases hkeep : keep a with
  | true =>
    rw [hkeep, if_pos rfl] at hvalue
    exact value_eq_iff.1 hvalue
  | false =>
    rw [hkeep, if_neg Bool.false_ne_true] at hvalue
    exact value_eq_none.1 hvalue

/-- A record is the mask of another one if it has its path and exactly the values that are kept. -/
theorem eq_mask_iff {keep : Attribute → Bool} {r masked : Record} :
    masked = r.mask keep ↔
      masked.path = r.path ∧ ∀ a, masked.captured a = if keep a then r.captured a else none := by
  constructor
  · rintro rfl
    exact ⟨path_mask keep r, captured_mask keep r⟩
  · rintro ⟨hpath, hcaptured⟩
    apply ext_captured
    · rw [hpath, path_mask]
    · intro a
      rw [hcaptured, captured_mask]

/-- A second mask that keeps no less changes nothing. -/
theorem mask_mask {keep other : Attribute → Bool} (h : ∀ a, keep a → other a) (r : Record) :
    (r.mask keep).mask other = r.mask keep := by
  symm
  rw [eq_mask_iff]
  refine ⟨rfl, fun a => ?_⟩
  rw [captured_mask]
  cases hkeep : keep a with
  | true => rw [if_pos (h a hkeep)]
  | false => exact (ite_self _).symm

theorem mask_of_forall {keep : Attribute → Bool} (h : ∀ a, keep a) (r : Record) :
    r.mask keep = r := by
  symm
  rw [eq_mask_iff]
  exact ⟨rfl, fun a => by rw [if_pos (h a)]⟩

end Record

end FileCensus
