import Mathlib.Tactic
import Multifidelity.Json.Decode

/-!
# What reads back

A number that is not finite is written as a null, and a null is no number. A value is read back from
its tree if all its numbers are finite, and the tree is refused otherwise.

## Main definitions

* `Json.ReadsBack`: trees that give their values back
* `Json.without`: an object with fields taken out

## Main results

* `Json.ReadsBack.list`, `Json.ReadsBack.optional`: lists and values that may be missing
* `Json.slots?_without`: what remains of a record
-/

namespace Multifidelity.Json

variable {α β : Type}

/-! ## Records -/

/-- The tree with the fields of the given names taken out. -/
def without (names : List String) : Json α → Json α
  | object fields => .object (fields.filter fun field => !names.any (some · == field.1))
  | json => json

theorem slot?_without (fields : List (Option String × Json α)) (names : List String)
    (name : String) :
    slot? (fields.filter fun field => !names.any (some · == field.1)) name =
      if name ∈ names then some none else slot? fields name := by
  unfold slot?
  rw [List.filter_filter]
  split_ifs with hmem
  · -- a field of that name has been taken out
    rw [List.filter_eq_nil_iff.mpr]
    rintro ⟨other, value⟩ -
    simp only [Bool.and_eq_true, beq_iff_eq, Bool.not_eq_true', List.any_eq_false, not_and,
      not_forall, not_not]
    rintro rfl
    exact ⟨name, hmem, rfl⟩
  · -- and the others have another name
    have hsame : ∀ field ∈ fields,
        (field.1 == some name && !names.any (some · == field.1)) = (field.1 == some name) := by
      rintro ⟨other, value⟩ -
      by_cases hname : other = some name
      · subst hname
        have hnone : ∀ removed ∈ names, removed ≠ name := fun removed hremoved heq =>
          hmem (heq ▸ hremoved)
        simpa using hnone
      · simp [hname]
    rw [List.filter_congr hsame]

/-- What is found for the names of fields, without some of them. -/
theorem mapM_slot?_without {entries : List (Option String × Json α)}
    {fields : List (String × Json α)}
    (h : ∀ field ∈ fields, slot? entries field.1 = some (some field.2)) (removed : List String) :
    (fields.map Prod.fst).mapM (slot? (entries.filter fun field =>
      !removed.any (some · == field.1))) =
        some (fields.map fun field => if field.1 ∈ removed then none else some field.2) := by
  induction fields with
  | nil => rfl
  | cons first rest ih =>
    rw [List.map_cons, List.mapM_cons, slot?_without, h first List.mem_cons_self,
      ih fun field hfield => h field (List.mem_cons_of_mem first hfield)]
    split_ifs with hmem <;> simp [hmem]

/-- A record without some of its fields has the values of the others. -/
theorem slots?_record_without {fields : List (String × Json α)} (h : (fields.map Prod.fst).Nodup)
    (removed : List String) (mayStop : Bool) :
    ((record fields).without removed).slots? (fields.map Prod.fst) mayStop =
      some (fields.map fun field => if field.1 ∈ removed then none else some field.2) := by
  unfold record without slots?
  dsimp only
  rw [if_pos (by simp)]
  exact mapM_slot?_without (fun field hfield => slot?_record_of_mem h hfield) removed

/-- A record that lists names and values has the values. -/
theorem slots?_zip {names : List String} (hnames : names.Nodup) (values : List (Json α))
    (hlength : names.length = values.length) (mayStop : Bool) :
    (record (names.zip values)).slots? names mayStop = some (values.map some) := by
  have hfst : (names.zip values).map Prod.fst = names := List.map_fst_zip hlength.le
  have hsnd : (names.zip values).map Prod.snd = values := List.map_snd_zip hlength.ge
  have h := slots?_record (hfst ▸ hnames) mayStop
  rw [hfst] at h
  rw [h]
  congr 1
  calc (names.zip values).map (fun field => some field.2)
      = ((names.zip values).map Prod.snd).map some := by
        rw [List.map_map]
        rfl
    _ = values.map some := by rw [hsnd]

/-- A record that lists names and values, without some of its fields. -/
theorem slots?_without {names : List String} (hnames : names.Nodup) (values : List (Json α))
    (hlength : names.length = values.length) (removed : List String) (mayStop : Bool) :
    ((record (names.zip values)).without removed).slots? names mayStop =
      some ((names.zip values).map fun field =>
        if field.1 ∈ removed then none else some field.2) := by
  have hfst : (names.zip values).map Prod.fst = names := List.map_fst_zip hlength.le
  have h := slots?_record_without (hfst ▸ hnames) removed mayStop
  rwa [hfst] at h

/-! ## Values that read back -/

section ReadsBack

variable [Scalar α]

/-- The tree of a value gives it back if all its scalars are numbers, and nothing otherwise. -/
def ReadsBack (encode : β → Json α) (decode : Json α → Option β) (scalars : β → List α) : Prop :=
  ∀ value, decode (encode value) =
    if (scalars value).all Scalar.isFinite then some value else none

/-- A step that is only taken on a condition. -/
theorem bind_ite_some {γ δ : Type} (p : Prop) [Decidable p] (value : γ) (next : γ → Option δ) :
    (if p then some value else none).bind next = if p then next value else none := by
  split <;> rfl

theorem readsBack_count : ReadsBack (count : ℕ → Json α) count? fun _ => [] :=
  fun _ => rfl

theorem readsBack_scalar : ReadsBack (ofScalar : α → Json α) scalar? fun x => [x] := by
  intro x
  unfold ofScalar
  cases hfinite : Scalar.isFinite x <;> simp [scalar?, hfinite]

namespace ReadsBack

variable {encode : β → Json α} {decode : Json α → Option β} {scalars : β → List α}

/-- A list reads back if all its items do. -/
theorem list (h : ReadsBack encode decode scalars) :
    ReadsBack (ofList encode) (list? decode) (List.flatMap scalars) := by
  intro values
  simp only [ofList, list?]
  induction values with
  | nil => rfl
  | cons first rest ih =>
    rw [List.map_cons, List.mapM_cons, h first, ih]
    simp only [Option.bind_eq_bind, bind_ite_some, List.flatMap_cons, List.all_append,
      Bool.and_eq_true, ite_and]
    rfl

/-- A list of values without scalars reads back. -/
theorem plainList (h : ReadsBack encode decode fun _ => []) :
    ReadsBack (ofList encode) (list? decode) fun _ => [] :=
  fun _ => list?_ofList fun value _ => h value

theorem required (h : ReadsBack encode decode scalars) (value : β) :
    required? decode (some (encode value)) =
      if (scalars value).all Scalar.isFinite then some value else none :=
  h value

/-- A value that may be missing is written as a null if it is, so that the trees of the others have
to be different. -/
theorem optional (h : ReadsBack encode decode scalars) (hnull : ∀ value, encode value ≠ .null)
    (value : Option β) :
    optional? decode (some (ofOption encode value)) =
      if (value.toList.flatMap scalars).all Scalar.isFinite then some value else none := by
  cases value with
  | none => rfl
  | some value =>
    have hread : optional? decode (some (encode value)) = (decode (encode value)).map some := by
      unfold optional?
      split
      · rename_i heq
        cases heq
      · rename_i heq
        exact absurd (Option.some.inj heq) (hnull value)
      · rename_i heq
        cases heq
        rfl
    rw [ofOption, hread, h value]
    simp only [Option.toList_some, List.flatMap_cons, List.flatMap_nil, List.append_nil]
    split <;> rfl

end ReadsBack

end ReadsBack

end Multifidelity.Json
