/-!
# Tables

A table binds names to values and remembers the order in which the names came.  A name that is bound
again keeps its place and takes the new value.  Every name is bound once, which the type says, so a
table is the same as the list of its entries.
-/

namespace Ipld

/-- Names bound to values, in the order in which the names came. -/
structure Table (α : Type) where
  entries : List (String × α)
  nodup : (entries.map Prod.fst).Nodup
  deriving DecidableEq

namespace Table

variable {α : Type}

/-- Binds a name in a list of entries: in place when it is there, at the end when it is not. -/
def put (name : String) (value : α) : List (String × α) → List (String × α)
  | [] => [(name, value)]
  | (key, old) :: rest =>
    if key = name then (key, value) :: rest else (key, old) :: put name value rest

/-- The names after binding one: nothing changes when the name is there, else it comes last. -/
theorem keys_put (name : String) (value : α) (entries : List (String × α)) :
    (put name value entries).map Prod.fst =
      if name ∈ entries.map Prod.fst then entries.map Prod.fst
      else entries.map Prod.fst ++ [name] := by
  induction entries with
  | nil => simp [put]
  | cons entry rest ih =>
    obtain ⟨key, old⟩ := entry
    by_cases h : key = name
    · simp [put, h]
    · have h' : ¬ name = key := fun e => h e.symm
      by_cases hm : name ∈ rest.map Prod.fst
      · simp [put, h, ih, hm]
      · simp [put, h, h', ih, hm]

theorem nodup_put (name : String) (value : α) (entries : List (String × α))
    (h : (entries.map Prod.fst).Nodup) : ((put name value entries).map Prod.fst).Nodup := by
  rw [keys_put]
  split
  · exact h
  · rename_i hm
    rw [List.nodup_append]
    refine ⟨h, by simp, ?_⟩
    intro a ha b hb
    rw [List.mem_singleton.1 hb]
    rintro rfl
    exact hm ha

def empty : Table α :=
  ⟨[], List.nodup_nil⟩

def insert (t : Table α) (name : String) (value : α) : Table α :=
  ⟨put name value t.entries, nodup_put name value t.entries t.nodup⟩

/-- The table that comes from binding the names of a list one after the other. -/
def ofList (entries : List (String × α)) : Table α :=
  entries.foldl (fun t entry => t.insert entry.1 entry.2) empty

def get? (t : Table α) (name : String) : Option α :=
  t.entries.lookup name

def contains (t : Table α) (name : String) : Bool :=
  name ∈ t.entries.map Prod.fst

/-- The names, in the order in which they came. -/
def keys (t : Table α) : List String :=
  t.entries.map Prod.fst

def size (t : Table α) : Nat :=
  t.entries.length

/-- Whether two tables bind the same names to values that `alike` takes for equal, in whatever
order. -/
def same (alike : α → α → Bool) (s t : Table α) : Bool :=
  s.size == t.size && s.entries.all fun entry =>
    match t.get? entry.1 with
    | some value => alike entry.2 value
    | none => false

theorem keys_insert (t : Table α) (name : String) (value : α) :
    (t.insert name value).keys = if name ∈ t.keys then t.keys else t.keys ++ [name] :=
  keys_put name value t.entries

end Table

end Ipld
