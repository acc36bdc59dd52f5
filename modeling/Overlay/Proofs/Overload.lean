/-
Overload lists in which no two are alike.

`Overload.firsts` keeps, of a list, each overload that is alike no earlier one in the whole list.
Merging and resolving build their lists in another way, by comparing an overload with those that
were kept so far.  As being alike is an equivalence, this comes to the same:

* `Overload.foldl_addNew` — overloads that are added one by one make the list of the first ones;
* `Overload.split_fst` — so do the overloads that a split keeps;
* `Overload.find?_firsts` — a search that cannot tell alike overloads apart finds the same overload
  whether or not the later ones are there.
-/
import Overlay.Proofs.Ty.Nameless
import Overlay.Resolve
import Mathlib.Data.List.Induction

namespace Overlay

/-- What is in front of an element of a list does not depend on what comes behind the list. -/
theorem take_append_of_mem_zipIdx {α : Type} {as : List α} {a : α} {i : Nat}
    (h : (a, i) ∈ as.zipIdx) (bs : List α) : (as ++ bs).take i = as.take i :=
  List.take_append_of_le_length (Nat.le_of_lt (by simpa using (List.mem_zipIdx h).2.1))

/-- What only grows with each element only grows. -/
theorem prefix_append_of_concat {α β : Type} {f : List α → List β}
    (h : ∀ as a, f as <+: f (as ++ [a])) (as bs : List α) : f as <+: f (as ++ bs) := by
  induction bs using List.reverseRecOn with
  | nil => exact ⟨[], by rw [List.append_nil, List.append_nil]⟩
  | append_singleton bs b ih =>
    rw [← List.append_assoc]
    exact ih.trans (h _ b)

namespace Overload

/-- The overloads that are alike no earlier one in the list. -/
def firsts (os : List Overload) : List Overload :=
  (os.zipIdx.filter fun (o, i) => !o.isIn (os.take i)).map Prod.fst

/-! ### Overloads beside others -/

theorem isIn_iff (o : Overload) (os : List Overload) :
    o.isIn os = true ↔ ∃ other ∈ os, other.signature.alike o.signature = true := by
  simp [isIn]

theorem isIn_of_mem {o : Overload} {os : List Overload} (h : o ∈ os) : o.isIn os = true :=
  (isIn_iff o os).mpr ⟨o, h, Signature.alike_refl o.signature⟩

theorem isIn_concat (o : Overload) (os : List Overload) (last : Overload) :
    o.isIn (os ++ [last]) = (o.isIn os || last.signature.alike o.signature) := by
  simp [isIn]

/-- What is alike an overload that says nothing new says nothing new, either. -/
theorem isIn_of_alike {o o' : Overload} {os : List Overload}
    (h : o.signature.alike o'.signature = true) (ho : o.isIn os = true) : o'.isIn os = true := by
  obtain ⟨other, hmem, hother⟩ := (isIn_iff o os).mp ho
  exact (isIn_iff o' os).mpr ⟨other, hmem, Signature.alike_trans hother h⟩

/-! ### The first ones -/

@[simp] theorem firsts_nil : firsts [] = [] := rfl

theorem firsts_concat (os : List Overload) (o : Overload) :
    firsts (os ++ [o]) = if o.isIn os then firsts os else firsts os ++ [o] := by
  have hearlier : ((os ++ [o]).zipIdx.filter fun (o', i) => !o'.isIn ((os ++ [o]).take i))
      = (os.zipIdx.filter fun (o', i) => !o'.isIn (os.take i))
        ++ if o.isIn os then [] else [(o, os.length)] := by
    rw [List.zipIdx_append, List.filter_append]
    congr 1
    · -- the new overload is behind all that the others are compared with
      refine List.filter_congr fun ⟨o', i⟩ h => ?_
      show (!o'.isIn ((os ++ [o]).take i)) = !o'.isIn (os.take i)
      rw [take_append_of_mem_zipIdx h]
    · by_cases h : o.isIn os <;> simp [h]
  rw [firsts, hearlier, List.map_append, firsts]
  by_cases h : o.isIn os <;> simp [h]

theorem firsts_prefix (os os' : List Overload) : firsts os <+: firsts (os ++ os') := by
  refine prefix_append_of_concat (fun os o => ?_) os os'
  rw [firsts_concat]
  split
  · exact List.prefix_rfl
  · exact List.prefix_append ..

theorem firsts_sublist (os : List Overload) : (firsts os).Sublist os := by
  have h : (firsts os).Sublist (os.zipIdx.map Prod.fst) := List.filter_sublist.map Prod.fst
  rwa [List.zipIdx_map_fst] at h

theorem mem_of_mem_firsts {o : Overload} {os : List Overload} (h : o ∈ firsts os) : o ∈ os :=
  (firsts_sublist os).subset h

/-- Beside the first ones an overload says as much as beside all. -/
theorem isIn_firsts (o : Overload) (os : List Overload) : o.isIn (firsts os) = o.isIn os := by
  induction os using List.reverseRecOn with
  | nil => rfl
  | append_singleton os last ih =>
    rw [firsts_concat]
    by_cases hlast : last.isIn os
    · rw [if_pos hlast, ih, isIn_concat]
      -- what the left-out overload is alike stands in for it
      by_cases hal : last.signature.alike o.signature
      · rw [isIn_of_alike hal hlast]
        rfl
      · simp [hal]
    · rw [if_neg hlast, isIn_concat, isIn_concat, ih]

theorem firsts_eq_nil_iff (os : List Overload) : firsts os = [] ↔ os = [] := by
  induction os using List.reverseRecOn with
  | nil => simp
  | append_singleton os last ih =>
    rw [firsts_concat]
    by_cases hlast : last.isIn os
    · have hos : os ≠ [] := by rintro rfl; simp [isIn] at hlast
      simp [hlast, ih, hos]
    · simp [hlast]

/-- The first overload of a list stays the first. -/
theorem head?_firsts (os : List Overload) : (firsts os).head? = os.head? := by
  induction os using List.reverseRecOn with
  | nil => rfl
  | append_singleton os last ih =>
    rw [firsts_concat, List.head?_append, ← ih]
    by_cases hlast : last.isIn os
    · have hos : firsts os ≠ [] := by
        rw [Ne, firsts_eq_nil_iff]
        rintro rfl
        simp [isIn] at hlast
      obtain ⟨first, rest, hfirsts⟩ := List.exists_cons_of_ne_nil hos
      simp [hlast, hfirsts]
    · simp [hlast]

/-- The first ones are alike no earlier one among themselves. -/
theorem firsts_firsts (os : List Overload) : firsts (firsts os) = firsts os := by
  induction os using List.reverseRecOn with
  | nil => rfl
  | append_singleton os last ih =>
    rw [firsts_concat]
    by_cases hlast : last.isIn os
    · rw [if_pos hlast, ih]
    · rw [if_neg hlast, firsts_concat, isIn_firsts, if_neg hlast, ih]

theorem firsts_of_length_le_one {os : List Overload} (h : os.length ≤ 1) : firsts os = os := by
  rcases os with _ | ⟨o, _ | ⟨o', rest⟩⟩
  · rfl
  · rfl
  · simp at h

/-! ### Step by step -/

theorem foldl_addNew (os : List Overload) : os.foldl addNew [] = firsts os := by
  induction os using List.reverseRecOn with
  | nil => rfl
  | append_singleton os last ih =>
    -- the list so far tells as much as all the overloads that it was made of
    rw [List.foldl_append, ih, List.foldl_cons, List.foldl_nil, addNew, isIn_firsts, firsts_concat]

theorem split_concat (os : List Overload) (o : Overload) :
    split (os ++ [o]) = if o.isIn (split os).1 then ((split os).1, (split os).2 ++ [o])
      else ((split os).1 ++ [o], (split os).2) := by
  rw [split, List.foldl_append, ← split, List.foldl_cons, List.foldl_nil]

theorem split_fst (os : List Overload) : (split os).1 = firsts os := by
  induction os using List.reverseRecOn with
  | nil => rfl
  | append_singleton os last ih =>
    rw [split_concat, ih, isIn_firsts, firsts_concat]
    by_cases hlast : last.isIn os <;> simp [hlast]

/-! ### Searching -/

/-- A search that cannot tell alike overloads apart never ends at a later one of them. -/
theorem find?_firsts {p : Overload → Bool}
    (hp : ∀ a b : Overload, a.signature.alike b.signature = true → p a = p b)
    (os : List Overload) : (firsts os).find? p = os.find? p := by
  induction os using List.reverseRecOn with
  | nil => rfl
  | append_singleton os last ih =>
    rw [firsts_concat, List.find?_append, ← ih]
    by_cases hlast : last.isIn os
    · rw [if_pos hlast]
      cases hfound : (firsts os).find? p with
      | some found => rfl
      | none =>
        -- an overload alike the last one was passed over, so the last one is, too
        obtain ⟨other, hmem, halike⟩ := (isIn_iff last os).mp hlast
        have hother : p other = false := by
          rw [ih] at hfound
          simpa using List.find?_eq_none.mp hfound other hmem
        simp [← hp other last halike, hother]
    · rw [if_neg hlast, List.find?_append]

end Overload

end Overlay
