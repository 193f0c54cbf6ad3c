/-!
# The kinds of car that can be rented (`rentals/domain/car_type.py`)
-/

namespace VehicleRentals

/-- `CarType`: a closed set of three. -/
inductive CarType where
  | sedan
  | suv
  | van
  deriving DecidableEq, Repr

namespace CarType

/-- The member's value, and what the database stores. -/
def value : CarType → String
  | sedan => "sedan"
  | suv => "suv"
  | van => "van"

/-- `str(car_type)`. -/
def label : CarType → String
  | sedan => "Sedan"
  | suv => "SUV"
  | van => "Van"

/-- `CarType(value)`; none where Python raises `ValueError`. -/
def ofValue (v : String) : Option CarType :=
  if v = sedan.value then some sedan
  else if v = suv.value then some suv
  else if v = van.value then some van
  else none

theorem value_injective {a b : CarType} (h : a.value = b.value) : a = b := by
  cases a <;> cases b <;> first | rfl | simp [value] at h

@[simp] theorem value_inj {a b : CarType} : a.value = b.value ↔ a = b :=
  ⟨value_injective, fun h => h ▸ rfl⟩

/-- What is stored reads back. -/
@[simp] theorem ofValue_value (c : CarType) : ofValue c.value = some c := by
  cases c <;> simp [ofValue]

end CarType

end VehicleRentals
