import LineScript.Value.Basic

/-!
This module contains the elements of values that a loop can run over. A range may have more elements
than fit into any memory, so an element is computed when it is asked for.
-/

namespace LineScript

/--
A finite sequence of values.
-/
structure Elements where
  size : Nat
  /-- The element at a position below the size. -/
  get : Nat → Value

namespace Elements

/--
The elements of a list.
-/
def ofList (items : List Value) : Elements where
  size := items.length
  get k := items[k]?.getD .null

/--
The elements of a range.
-/
def ofRange (start stop step : Int) : Elements where
  size := Value.rangeSize start stop step
  get k := .int (start + k * step)

/--
All elements in order.
-/
def toList (elements : Elements) : List Value :=
  (List.range elements.size).map elements.get

@[simp]
theorem length_toList (elements : Elements) : elements.toList.length = elements.size := by
  simp [toList]

@[simp]
theorem toList_ofList (items : List Value) : (ofList items).toList = items := by
  apply List.ext_getElem?
  intro k
  by_cases h : k < items.length <;> simp [toList, ofList, h]

end Elements

/--
The elements of a value: the characters of a text, the integers of a range, the items of a list.
Other values have none to run over.
-/
def Value.elements? : Value → Option Elements
  | .text t => some (.ofList (t.map fun c => .text [c]))
  | .range start stop step => some (.ofRange start stop step)
  | .list items => some (.ofList items)
  | _ => none

end LineScript
