/-
Lists of pairs, one for each key.

The pairs stand in the order in which their keys came first.  `Assoc.alter` is the only way in: it
changes the value of a key in its place, and puts a new key at the end.

* `Assoc.get?_alter` — only the value of that key is another;
* `Assoc.keys_alter` — only that key can be new, and then it is the last.
-/

namespace Overlay

/-- Values by key, in the order in which the keys came first. -/
abbrev Assoc (α β : Type) : Type :=
  List (α × β)

namespace Assoc

variable {α β : Type} [DecidableEq α]

def keys (pairs : Assoc α β) : List α :=
  pairs.map Prod.fst

def values (pairs : Assoc α β) : List β :=
  pairs.map Prod.snd

def get? (key : α) : Assoc α β → Option β
  | [] => none
  | (k, value) :: pairs => if k = key then some value else get? key pairs

/-- Gives a key the value that comes of its old one, if it has one. -/
def alter (key : α) (f : Option β → β) : Assoc α β → Assoc α β
  | [] => [(key, f none)]
  | (k, value) :: pairs =>
    if k = key then (k, f (some value)) :: pairs else (k, value) :: alter key f pairs

/-- The place of each key in a list; where a key comes again, its last place. -/
def places (keys : List α) : Assoc α Nat :=
  keys.zipIdx.foldl (fun places (key, index) => places.alter key fun _ => index) []

theorem get?_alter (key : α) (f : Option β → β) (pairs : Assoc α β) (k : α) :
    get? k (alter key f pairs) = if k = key then some (f (get? key pairs)) else get? k pairs := by
  induction pairs with
  | nil => by_cases h : key = k <;> simp [alter, get?, h, eq_comm]
  | cons pair pairs ih =>
    obtain ⟨k', value⟩ := pair
    by_cases hkey : k' = key
    · by_cases h : key = k <;> simp [alter, get?, hkey, h, eq_comm]
    · by_cases h : k' = k
      · have hk : k ≠ key := fun e => hkey (h.trans e)
        simp [alter, get?, h, hk]
      · simp [alter, get?, hkey, h, ih]

theorem keys_alter (key : α) (f : Option β → β) (pairs : Assoc α β) :
    keys (alter key f pairs) = if key ∈ keys pairs then keys pairs else keys pairs ++ [key] := by
  induction pairs with
  | nil => rfl
  | cons pair pairs ih =>
    obtain ⟨k', value⟩ := pair
    simp only [keys, List.map_cons, List.mem_cons] at ih ⊢
    by_cases hkey : k' = key
    · simp [alter, hkey]
    · have h : ¬ key = k' := fun e => hkey e.symm
      by_cases hmem : key ∈ pairs.map Prod.fst
      · simp [alter, hkey, ih, hmem]
      · simp [alter, hkey, h, ih, hmem]

end Assoc

end Overlay
