/-
JavaScript values that arrive at a boundary, and the clone that makes JSON of
them.

`JsValue` has the JSON data, with numbers as the rationals they denote, and one
more constructor for everything the clone rejects where it stands (`undefined`, a
function, a cycle, an object with a prototype of its own, an accessor, an array
with extra properties), which carries the message of that rejection.
-/
import TegoNext.Sorting
import TegoNext.Text

set_option autoImplicit false

namespace TegoNext

/-- A JavaScript value, as far as the clone tells values apart. -/
inductive JsValue where
  | null
  | bool (b : Bool)
  | number (q : Rat)
  | string (s : JsString)
  | array (items : List JsValue)
  | object (fields : List (JsString × JsValue))
  | foreign (message : String)

structure PermissionInputError where
  path : JsString
  message : JsString
  deriving DecidableEq

namespace JsValue

open Text

/-- A decimal array index. -/
def indexText (index : Nat) : JsString := js (toString index)

/-- `${path}/${name}`. -/
def child (path name : JsString) : JsString := path ++ js "/" ++ name

/-- `${path}/${name}` for a literal name. -/
def at' (path : JsString) (name : String) : JsString := child path (js name)

/-- Fields in the order of their keys, as the clone inserts them. -/
def sortFields {α : Type} (fields : List (JsString × α)) : List (JsString × α) :=
  fields.insertionSort fun left right => compareText left.1 right.1 ≠ .gt

def sequenceFields {α : Type} : List (JsString × Except PermissionInputError α) →
    Except PermissionInputError (List (JsString × α))
  | [] => .ok []
  | (key, value) :: fields => do
    let value ← value
    let fields ← sequenceFields fields
    pure ((key, value) :: fields)

mutual

/-- `clonePermissionBoundaryValue`. -/
def clone (path : JsString) : JsValue → Except PermissionInputError JsValue
  | null => .ok null
  | bool b => .ok (bool b)
  | number q => .ok (number q)
  | string s => .ok (string s)
  | foreign message => .error ⟨path, js message⟩
  | array items => do
    let items ← cloneItems path 0 items
    pure (array items)
  | object fields => do
    let fields ← sequenceFields (sortFields (cloneFields path fields))
    pure (object fields)

/-- The elements of an array from `index` on. -/
def cloneItems (path : JsString) (index : Nat) : List JsValue →
    Except PermissionInputError (List JsValue)
  | [] => .ok []
  | item :: items => do
    let item ← clone (child path (indexText index)) item
    let items ← cloneItems path (index + 1) items
    pure (item :: items)

def cloneFields (path : JsString) : List (JsString × JsValue) →
    List (JsString × Except PermissionInputError JsValue)
  | [] => []
  | (key, value) :: fields => (key, clone (child path key) value) :: cloneFields path fields

end

/-! ## Checked access -/

abbrev Fields : Type := List (JsString × JsValue)

def objectAt (value : JsValue) (path : JsString) : Except PermissionInputError Fields :=
  match value with
  | object fields => .ok fields
  | _ => .error ⟨path, js "value must be an object"⟩

def arrayAt (value : JsValue) (path : JsString) : Except PermissionInputError (List JsValue) :=
  match value with
  | array items => .ok items
  | _ => .error ⟨path, js "value must be an array"⟩

def stringAt (value : JsValue) (path : JsString) : Except PermissionInputError JsString :=
  match value with
  | string s => .ok s
  | _ => .error ⟨path, js "value must be a string"⟩

/-- `value.name`; a field that is missing reads as a value no check accepts. -/
def get (fields : Fields) (name : String) : JsValue :=
  (fields.lookup (js name)).getD (foreign "undefined")

/-- `exactKeys`; `keys` are given in order. -/
def exactKeys (fields : Fields) (keys : List String) (path : JsString) :
    Except PermissionInputError Unit :=
  if (sortFields fields).map (·.1) = keys.map js then .ok ()
  else .error ⟨path, js ("object fields must be " ++ ", ".intercalate keys)⟩

/-- `values.map((value, index) => ...)` with a callback that may throw. -/
def mapIndexed {α β : Type} (f : Nat → α → Except PermissionInputError β) (index : Nat) :
    List α → Except PermissionInputError (List β)
  | [] => .ok []
  | a :: as => do
    let b ← f index a
    let bs ← mapIndexed f (index + 1) as
    pure (b :: bs)

/-- `Number.isSafeInteger(value)`, with the integer. -/
def safeInteger : JsValue → Option Int
  | number q => if q.den = 1 ∧ q.num.natAbs ≤ maxSafeInteger then some q.num else none
  | _ => none

end JsValue

/-- Drop each value that equals the one before it. -/
def dropRepeated {α : Type} (compare : α → α → Ordering) : Option α → List α → List α
  | _, [] => []
  | none, a :: rest => a :: dropRepeated compare (some a) rest
  | some previous, a :: rest =>
    if compare previous a = .eq then dropRepeated compare (some a) rest
    else a :: dropRepeated compare (some a) rest

def sortedUnique {α : Type} (compare : α → α → Ordering) (values : List α) : List α :=
  dropRepeated compare none (values.insertionSort fun left right => compare left right ≠ .gt)

end TegoNext
