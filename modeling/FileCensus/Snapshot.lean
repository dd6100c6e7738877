import FileCensus.Record

/-!
# Snapshots

A snapshot is a named set of file records with one record for a path, held in ascending order of
the paths' text. Inserting a record replaces the one of its path.
-/

namespace FileCensus

namespace Record

def find (path : String) : List Record → Option Record := List.find? (·.path.text = path)

/-- Puts a record in its place, over the one of the same path. -/
def place (r : Record) : List Record → List Record
  | [] => [r]
  | x :: rest =>
    if r.path.text < x.path.text then r :: x :: rest
    else if r.path = x.path then r :: rest
    else x :: place r rest

/-- Strictly ascending by path. -/
def Ascending (files : List Record) : Prop := files.Pairwise fun a b => a.path.text < b.path.text

theorem mem_place {r x : Record} {files : List Record} (h : x ∈ place r files) :
    x = r ∨ x ∈ files := by
  induction files with
  | nil => simpa [place] using h
  | cons y rest ih =>
    simp only [place] at h
    split at h
    · simpa using h
    · split at h
      · rcases List.mem_cons.1 h with h | h
        · exact .inl h
        · exact .inr (List.mem_cons_of_mem _ h)
      · rcases List.mem_cons.1 h with h | h
        · exact .inr (by simp [h])
        · exact (ih h).imp_right (List.mem_cons_of_mem _)

theorem Ascending.place {files : List Record} (h : Ascending files) (r : Record) :
    Ascending (r.place files) := by
  induction files with
  | nil => simp [Record.place, Ascending]
  | cons x rest ih =>
    have hx : ∀ y ∈ rest, x.path.text < y.path.text := fun _ => List.rel_of_pairwise_cons h
    simp only [Record.place]
    split
    · rename_i hlt
      refine List.Pairwise.cons ?_ h
      intro y hy
      rcases List.mem_cons.1 hy with rfl | hy
      · exact hlt
      · exact String.lt_trans hlt (hx _ hy)
    · split
      · rename_i heq
        exact List.Pairwise.cons (fun y hy => heq ▸ hx _ hy) h.of_cons
      · rename_i hge hne
        refine List.Pairwise.cons ?_ (ih h.of_cons)
        intro y hy
        rcases mem_place hy with rfl | hy
        · exact Std.lt_of_le_of_ne (Std.not_lt.1 hge) fun he => hne (NormalPath.ext he.symm)
        · exact hx _ hy

end Record

structure Snapshot where
  name : String
  files : List Record
  ascending : Record.Ascending files

namespace Snapshot

instance : DecidableEq Snapshot := fun a b =>
  if h : a.name = b.name ∧ a.files = b.files then
    .isTrue (by cases a; cases b; simp_all)
  else .isFalse fun e => h (e ▸ ⟨rfl, rfl⟩)

@[ext] theorem ext {s t : Snapshot} (hn : s.name = t.name) (hf : s.files = t.files) : s = t := by
  cases s
  cases t
  simp_all

def empty (name : String) : Snapshot := ⟨name, [], .nil⟩

def get? (s : Snapshot) (path : String) : Option Record := Record.find path s.files

/-- The snapshot with the record in it, and the record that it replaces. -/
def insert (s : Snapshot) (r : Record) : Option Record × Snapshot :=
  (s.get? r.path.text, ⟨s.name, r.place s.files, s.ascending.place r⟩)

def insertAll (s : Snapshot) (records : List Record) : Snapshot :=
  records.foldl (fun s r => (s.insert r).2) s

def rename (s : Snapshot) (name : String) : Snapshot := { s with name }

def size (s : Snapshot) : Nat := s.files.length

def paths (s : Snapshot) : List String := s.files.map (·.path.text)

@[simp] theorem name_insert (s : Snapshot) (r : Record) : (s.insert r).2.name = s.name := rfl

end Snapshot

end FileCensus
