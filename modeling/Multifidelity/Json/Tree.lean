/-!
# JSON trees

## Main definitions

* `Json`: the value of a JSON text, with numbers kept apart by their kind.
* `Json.slots?`: the values of the fields of a record.
* `Json.variant?`, `Json.label?`: the alternatives of a choice.

## Main results

* `Json.slots?_record`: a record gives back the values it is made of.
* `Json.variant?_choice`: a choice gives back its alternative.
-/

namespace Multifidelity

/-- The value of a JSON text.  A field has no name if the text of its name is no sequence of
characters. -/
inductive Json (α : Type) where
  /-- The missing value. -/
  | null
  /-- A truth value. -/
  | bool (value : Bool)
  /-- A whole number in the range of a count. -/
  | count (value : Nat)
  /-- The negative of a count. -/
  | negative (value : Nat)
  /-- Any other number. -/
  | real (value : α)
  /-- A number or string that is well-formed but has no value. -/
  | unreadable
  /-- A string. -/
  | string (value : String)
  /-- A list of values. -/
  | list (items : List (Json α))
  /-- A list of named values. -/
  | object (fields : List (Option String × Json α))

namespace Json

variable {α β : Type}

/-- The object with the given fields. -/
def record (fields : List (String × Json α)) : Json α :=
  .object (fields.map fun (name, value) => (some name, value))

/-- The object that selects an alternative with data. -/
def choice (name : String) (value : Json α) : Json α :=
  .record [(name, value)]

/-- The value of a field, `some none` if there is no such field and none if there are several. -/
def slot? (fields : List (Option String × Json α)) (name : String) : Option (Option (Json α)) :=
  match fields.filter (·.1 == some name) with
  | [] => some none
  | [(_, value)] => some (some value)
  | _ => none

/-- The values of the fields of a record, given as an object in any order or as a list in the order
of the fields.  An object may have other fields, but no field twice.  A list has to be complete
unless `mayStop` is set. -/
def slots? (names : List String) (mayStop : Bool) : Json α → Option (List (Option (Json α)))
  | object fields =>
    if fields.all (·.1.isSome) then names.mapM (slot? fields) else none
  | list items =>
    if items.length = names.length ∨ (mayStop ∧ items.length < names.length) then
      some (items.map some ++ List.replicate (names.length - items.length) none)
    else none
  | _ => none

/-- The alternative that an object selects, with its data. -/
def variant? : Json α → Option (String × Json α)
  | object [(some name, value)] => some (name, value)
  | _ => none

/-- The alternative without data that is selected by its name. -/
def label? : Json α → Option String
  | string name => some name
  | object [(some name, null)] => some name
  | _ => none

theorem filter_record_of_notMem {fields : List (String × Json α)} {name : String}
    (h : name ∉ fields.map Prod.fst) :
    (fields.map fun (name, value) => (some name, value)).filter
      (fun field : Option String × Json α => field.1 == some name) = [] := by
  rw [List.filter_eq_nil_iff]
  intro field hfield heq
  obtain ⟨entry, hentry, rfl⟩ := List.mem_map.1 hfield
  exact h (List.mem_map.2 ⟨entry, hentry, by simpa using heq⟩)

theorem slot?_record_of_mem {fields : List (String × Json α)} {name : String} {value : Json α}
    (hnodup : (fields.map Prod.fst).Nodup) (h : (name, value) ∈ fields) :
    slot? (fields.map fun (name, value) => (some name, value)) name = some (some value) := by
  have hfound : (fields.map fun (name, value) => (some name, value)).filter
      (fun field : Option String × Json α => field.1 == some name) = [(some name, value)] := by
    induction fields with
    | nil => simp at h
    | cons first rest ih =>
      rw [List.map_cons, List.nodup_cons] at hnodup
      rcases List.mem_cons.1 h with rfl | hrest
      · simp [filter_record_of_notMem hnodup.1]
      · have hne : first.1 ≠ name := fun heq =>
          hnodup.1 (List.mem_map.2 ⟨_, hrest, heq.symm⟩)
        simpa [hne] using ih hnodup.2 hrest
  rw [slot?, hfound]

/-- A record whose fields have different names has the values of its fields. -/
theorem slots?_record {fields : List (String × Json α)} (h : (fields.map Prod.fst).Nodup)
    (mayStop : Bool) :
    (record fields).slots? (fields.map Prod.fst) mayStop =
      some (fields.map fun field => some field.2) := by
  have hslots : ∀ part : List (String × Json α), part ⊆ fields →
      (part.map Prod.fst).mapM (slot? (fields.map fun (name, value) => (some name, value))) =
        some (part.map fun field => some field.2) := by
    intro part
    induction part with
    | nil => intro _; rfl
    | cons first rest ih =>
      intro hpart
      rw [List.map_cons, List.mapM_cons,
        slot?_record_of_mem h (hpart (List.mem_cons_self ..)),
        ih fun field hfield => hpart (List.mem_cons_of_mem _ hfield)]
      rfl
  simpa [record, slots?] using hslots fields (List.Subset.refl _)

@[simp] theorem variant?_choice (name : String) (value : Json α) :
    (choice name value).variant? = some (name, value) :=
  rfl

end Json

end Multifidelity
