import Entail.Json.RawText

/-!
# Structured values

The values of settings: atoms, lists, and records whose entries keep the order
in which their keys came up.
-/

namespace Entail.Json

/-- A structured value. -/
inductive Value
  | null
  | boolean (b : Bool)
  | integer (n : Int)
  | float (x : Float)
  | text (s : RawText)
  | list (items : List Value)
  | record (entries : List (RawText × Value))

/-- Keys with their values. -/
abbrev Entries := List (RawText × Value)

instance : Inhabited Value := ⟨.null⟩

/-- The value of a key. -/
def lookup (key : RawText) (entries : Entries) : Option Value :=
  (entries.find? (·.1 == key)).map Prod.snd

/-- Gives a key a value; a new key goes to the end, an old one keeps its place. -/
def assign (key : RawText) (value : Value) : Entries → Entries
  | [] => [(key, value)]
  | entry :: rest =>
    if entry.1 = key then (key, value) :: rest else entry :: assign key value rest

/-- Gives all the keys of `changes` their values, in order. -/
def assignAll (changes entries : Entries) : Entries :=
  changes.foldl (fun entries change => assign change.1 change.2 entries) entries

/-- The entries without those of the given keys. -/
def eraseKeys (keys : List RawText) (entries : Entries) : Entries :=
  entries.filter fun entry => !keys.contains entry.1

theorem lookup_assign_self (key : RawText) (value : Value) (entries : Entries) :
    lookup key (assign key value entries) = some value := by
  induction entries with
  | nil => simp [assign, lookup]
  | cons entry rest ih =>
    rw [assign]
    split
    · simp [lookup]
    next differs => simpa [lookup, differs] using ih

namespace Value

def isNull : Value → Bool
  | null => true
  | _ => false

/-- Whether a value counts as true: neither null, false, zero nor empty. -/
def truthy : Value → Bool
  | null => false
  | boolean b => b
  | integer n => n != 0
  | float x => x != 0
  | text s => !s.isEmpty
  | list items => !items.isEmpty
  | record entries => !entries.isEmpty

end Value

end Entail.Json
