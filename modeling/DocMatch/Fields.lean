/-!
Named entries in the order in which their names first came. Writing a name that is already there
changes its value in place; a new name goes to the end. Mappings of a document, the matchers of a
file and the values resolved so far are all kept this way.
-/

namespace DocMatch

/-- Entries by name, in order. -/
abbrev Fields (α : Type) := List (String × α)

namespace Fields

variable {α β : Type}

/-- The value under a name: the first, if the name stood twice. -/
def get? (name : String) : Fields α → Option α
  | [] => none
  | (k, v) :: rest => if k = name then some v else get? name rest

/-- Writes a value under a name, in place if the name is there and else at the end. -/
def put (name : String) (value : α) : Fields α → Fields α
  | [] => [(name, value)]
  | (k, v) :: rest => if k = name then (k, value) :: rest else (k, v) :: put name value rest

/-- The names, in order. -/
def names (fields : Fields α) : List String := fields.map Prod.fst

/-- Entries read from left to right: a repeated name keeps its first place and its last value. -/
def ofList (entries : List (String × α)) : Fields α :=
  entries.foldl (fun fields entry => put entry.1 entry.2 fields) []

/-- Changes every value and keeps the names. -/
def mapValues (f : α → β) (fields : Fields α) : Fields β :=
  fields.map fun entry => (entry.1, f entry.2)

@[simp] theorem get?_nil (name : String) : get? name ([] : Fields α) = none := rfl

@[simp] theorem names_nil : names ([] : Fields α) = [] := rfl

@[simp] theorem names_cons (entry : String × α) (fields : Fields α) :
    names (entry :: fields) = entry.1 :: names fields := rfl

/-- What was written is found again. -/
@[simp] theorem get?_put_self (name : String) (value : α) (fields : Fields α) :
    get? name (put name value fields) = some value := by
  induction fields with
  | nil => simp [put, get?]
  | cons entry rest ih =>
    by_cases h : entry.1 = name
    · simp [put, get?, h]
    · simp [put, get?, h, ih]

/-- Writing one name leaves the others alone. -/
theorem get?_put_of_ne {name other : String} (h : name ≠ other) (value : α) (fields : Fields α) :
    get? other (put name value fields) = get? other fields := by
  induction fields with
  | nil => simp [put, get?, h]
  | cons entry rest ih =>
    by_cases hk : entry.1 = name
    · simp [put, get?, hk, h]
    · by_cases ho : entry.1 = other
      · simp [put, get?, ho, Ne.symm h]
      · simp [put, get?, hk, ho, ih]

/-- A name has a value exactly when it is among the names. -/
theorem get?_isSome {name : String} {fields : Fields α} :
    (get? name fields).isSome ↔ name ∈ names fields := by
  induction fields with
  | nil => simp
  | cons entry rest ih =>
    by_cases h : entry.1 = name
    · simp [get?, h]
    · simp [get?, h, ih, Ne.symm h]

theorem get?_eq_none_iff {name : String} {fields : Fields α} :
    get? name fields = none ↔ name ∉ names fields := by
  rw [← get?_isSome, Option.not_isSome_iff_eq_none]

/-- A name without a value is written at the end. -/
theorem put_of_not_mem {name : String} {fields : Fields α} (h : name ∉ names fields) (value : α) :
    put name value fields = fields ++ [(name, value)] := by
  induction fields with
  | nil => rfl
  | cons entry rest ih =>
    simp only [names_cons, List.mem_cons, not_or] at h
    simp [put, Ne.symm h.1, ih h.2]

/-- A name that is there stays where it is. -/
theorem names_put_of_mem {name : String} {fields : Fields α} (h : name ∈ names fields) (value : α) :
    names (put name value fields) = names fields := by
  induction fields with
  | nil => simp at h
  | cons entry rest ih =>
    by_cases hk : entry.1 = name
    · simp [put, hk]
    · simp only [names_cons, List.mem_cons] at h
      simp [put, hk, ih (h.resolve_left (Ne.symm hk))]

end Fields

end DocMatch
