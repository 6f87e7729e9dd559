namespace Calculator

/-- At most one entry for each name, in the order of the names. -/
structure Directory (α : Type) where
  entries : List (String × α)
  ordered : entries.Pairwise (fun a b => a.1 < b.1)

namespace Directory

variable {α : Type}

def empty : Directory α := ⟨[], .nil⟩

instance : Inhabited (Directory α) := ⟨empty⟩

/-- Puts an entry in its place, or in the place of the entry that had its name. -/
def place (name : String) (value : α) : List (String × α) → List (String × α)
  | [] => [(name, value)]
  | e :: es =>
    if name < e.1 then (name, value) :: e :: es
    else if name = e.1 then (name, value) :: es
    else e :: place name value es

theorem lt_of_not_lt {a b : String} (h : ¬ a < b) (hne : a ≠ b) : b < a := by
  refine Classical.byContradiction fun hba => hne ?_
  exact String.le_antisymm (String.not_lt.mp hba) (String.not_lt.mp h)

theorem mem_place {name : String} {value : α} {es : List (String × α)} {e : String × α}
    (h : e ∈ place name value es) : e = (name, value) ∨ e ∈ es := by
  induction es with
  | nil => simpa [place] using h
  | cons d es ih =>
    unfold place at h
    split at h
    · simpa using h
    · split at h
      · rcases List.mem_cons.mp h with h | h
        · exact .inl h
        · exact .inr (List.mem_cons_of_mem d h)
      · rcases List.mem_cons.mp h with h | h
        · exact .inr (by simp [h])
        · exact (ih h).imp_right (List.mem_cons_of_mem d)

theorem pairwise_place {es : List (String × α)} (h : es.Pairwise (fun a b => a.1 < b.1))
    (name : String) (value : α) : (place name value es).Pairwise (fun a b => a.1 < b.1) := by
  induction es with
  | nil => simp [place]
  | cons d es ih =>
    obtain ⟨first, rest⟩ := List.pairwise_cons.mp h
    unfold place
    split
    · next hlt =>
      refine List.pairwise_cons.mpr ⟨fun e he => ?_, h⟩
      rcases List.mem_cons.mp he with rfl | he
      · exact hlt
      · exact String.lt_trans hlt (first e he)
    · next hlt =>
      split
      · next heq => exact List.pairwise_cons.mpr ⟨fun e he => heq ▸ first e he, rest⟩
      · next hne =>
        refine List.pairwise_cons.mpr ⟨fun e he => ?_, ih rest⟩
        rcases mem_place he with rfl | he
        · exact lt_of_not_lt hlt hne
        · exact first e he

def insert (d : Directory α) (name : String) (value : α) : Directory α :=
  ⟨place name value d.entries, pairwise_place d.ordered name value⟩

def get? (d : Directory α) (name : String) : Option α := d.entries.lookup name

def contains (d : Directory α) (name : String) : Bool := (d.get? name).isSome

def erase (d : Directory α) (name : String) : Directory α :=
  ⟨d.entries.filter (fun e => e.1 ≠ name), d.ordered.filter _⟩

def size (d : Directory α) : Nat := d.entries.length

def names (d : Directory α) : List String := d.entries.map Prod.fst

/-- Inserts entries in turn, later ones over earlier ones of the same name. -/
def insertAll (d : Directory α) (es : List (String × α)) : Directory α :=
  es.foldl (fun d e => d.insert e.1 e.2) d

def ofList (es : List (String × α)) : Directory α := empty.insertAll es

theorem lookup_place (name other : String) (value : α) (es : List (String × α)) :
    (place name value es).lookup other =
      if other = name then some value else es.lookup other := by
  induction es with
  | nil =>
    by_cases h : other = name
    · simp [place, h]
    · have apart : (other == name) = false := beq_false_of_ne h
      simp [place, List.lookup_cons, h, apart]
  | cons e es ih =>
    obtain ⟨k, v⟩ := e
    unfold place
    by_cases h : other = name
    · subst h
      split
      · simp
      · split
        · simp
        · next hne =>
          have apart : (other == k) = false := beq_false_of_ne hne
          simp [List.lookup_cons, apart, ih]
    · have apart : (other == name) = false := beq_false_of_ne h
      split
      · simp [List.lookup_cons, apart]
      · split
        · next heq =>
          subst heq
          simp [List.lookup_cons, apart]
        · simp [List.lookup_cons, h, ih]

theorem get?_insert (d : Directory α) (name other : String) (value : α) :
    (d.insert name value).get? other = if other = name then some value else d.get? other :=
  lookup_place name other value d.entries

end Directory

end Calculator
