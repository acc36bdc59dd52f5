/-
Lists up to order.

What is collected by key is, up to order, what was there before.  So wherever only the number of
each element counts, the groups may stand for the list that they were made of:

* `perm_flatMap_filter` — a list is, up to order, its groups by key;
* `eraseDups_perm` — leaving repetitions out keeps lists the same up to order;
* `exists_perm_forall₂_of_map_perm` — lists with the same images up to order match one to one;
* `flatMap_filter_of_eq_nil` — what brings nothing may be left out;
* `subperm_flatMap` — what is made of fewer elements is less, up to order;
* `Assoc.perm_flatMap_values_alter` — what a value gains, the values of all keys gain.
-/
import Overlay.Proofs.Assoc
import Mathlib.Data.List.Flatten
import Mathlib.Data.List.Perm.Subperm

namespace Overlay

variable {α κ : Type} [DecidableEq κ]

/-- A list is, up to order, its groups by keys, if the keys are all there and each is there once. -/
theorem perm_flatMap_filter (key : α → κ) {ks : List κ} (hks : ks.Nodup) (as : List α)
    (h : ∀ a ∈ as, key a ∈ ks) : (ks.flatMap fun k => as.filter fun a => key a = k).Perm as := by
  induction ks generalizing as with
  | nil =>
    have hnil : as = [] := List.eq_nil_iff_forall_not_mem.mpr fun a ha =>
      List.not_mem_nil (h a ha)
    rw [hnil]
    exact .refl _
  | cons k ks ih =>
    obtain ⟨hk, hks⟩ := List.nodup_cons.mp hks
    -- the groups of the other keys are made of what the first group leaves over
    have hothers : (ks.flatMap fun k' => as.filter fun a => key a = k')
        = ks.flatMap fun k' =>
            (as.filter fun a => !decide (key a = k)).filter fun a => key a = k' := by
      refine List.flatMap_congr fun k' hk' => ?_
      rw [List.filter_filter]
      refine List.filter_congr fun a _ => ?_
      have hne : k' ≠ k := fun e => hk (e ▸ hk')
      by_cases hkey : key a = k' <;> simp [hkey, hne]
    have hrest : ∀ a ∈ as.filter fun a => !decide (key a = k), key a ∈ ks := by
      intro a ha
      obtain ⟨hmem, hkey⟩ := List.mem_filter.mp ha
      exact List.mem_of_ne_of_mem (by simpa using hkey) (h a hmem)
    rw [List.flatMap_cons, hothers]
    exact ((ih hks _ hrest).append_left _).trans (List.filter_append_perm _ as)

theorem eraseDups_perm {ks ks' : List κ} (h : ks.Perm ks') : ks.eraseDups.Perm ks'.eraseDups := by
  rw [List.perm_ext_iff_of_nodup (nodup_eraseDups ks) (nodup_eraseDups ks')]
  intro k
  rw [List.mem_eraseDups, List.mem_eraseDups, h.mem_iff]

/-- Lists with the same images up to order match one to one, each with one of the same image. -/
theorem exists_perm_forall₂_of_map_perm {β : Type} {f : α → β} {as bs : List α}
    (h : (as.map f).Perm (bs.map f)) :
    ∃ cs, cs.Perm bs ∧ List.Forall₂ (fun a c => f a = f c) as cs := by
  have hbs : List.Forall₂ (fun b c => b = f c) (bs.map f) bs := by
    rw [List.forall₂_map_left_iff]
    exact List.forall₂_same.mpr fun _ _ => rfl
  obtain ⟨cs, hcs, hperm⟩ := List.perm_comp_forall₂ h hbs
  exact ⟨cs, hperm, List.forall₂_map_left_iff.mp hcs⟩

/-- Elements that bring nothing may be left out. -/
theorem flatMap_filter_of_eq_nil {α β : Type} {p : α → Bool} {f : α → List β} {as : List α}
    (h : ∀ a ∈ as, p a = false → f a = []) : (as.filter p).flatMap f = as.flatMap f := by
  induction as with
  | nil => rfl
  | cons a as ih =>
    have hrest := ih fun a' ha' => h a' (List.mem_cons_of_mem _ ha')
    rw [List.filter_cons, List.flatMap_cons, ← hrest]
    by_cases hp : p a
    · rw [if_pos hp, List.flatMap_cons]
    · rw [if_neg hp, h a (List.mem_cons_self ..) (Bool.not_eq_true _ ▸ hp)]
      rfl

/-- Parts of each are, up to order, a part of all. -/
theorem subperm_flatMap {β : Type} {f g : α → List β} {as : List α}
    (h : ∀ a ∈ as, (f a).Subperm (g a)) : (as.flatMap f).Subperm (as.flatMap g) := by
  induction as with
  | nil => exact .refl _
  | cons a as ih =>
    rw [List.flatMap_cons, List.flatMap_cons]
    exact (h a (List.mem_cons_self ..)).append (ih fun a' ha' => h a' (List.mem_cons_of_mem _ ha'))

theorem nodup_of_subperm {as bs : List α} (h : as.Subperm bs) (hbs : bs.Nodup) : as.Nodup := by
  obtain ⟨cs, hperm, hsub⟩ := h
  exact hperm.nodup_iff.mp (hbs.sublist hsub)

/-- What a value gains when it is altered, the values of all keys gain. -/
theorem Assoc.perm_flatMap_values_alter {β γ : Type} (key : κ) {f : Option β → β} {g : β → List γ}
    {gain : List γ} (hnone : g (f none) = gain) (hsome : ∀ b, g (f (some b)) = g b ++ gain)
    (pairs : Assoc κ β) :
    ((values (alter key f pairs)).flatMap g).Perm ((values pairs).flatMap g ++ gain) := by
  induction pairs with
  | nil =>
    show (g (f none) ++ []).Perm ([] ++ gain)
    rw [hnone, List.append_nil, List.nil_append]
  | cons pair pairs ih =>
    obtain ⟨key', value⟩ := pair
    by_cases hkey : key' = key
    · rw [alter, if_pos hkey]
      -- the gain stands behind what its own key had before
      show (g (f (some value)) ++ (values pairs).flatMap g).Perm
        (g value ++ (values pairs).flatMap g ++ gain)
      rw [hsome, List.append_assoc, List.append_assoc]
      exact List.perm_append_comm.append_left _
    · rw [alter, if_neg hkey]
      -- the gain is among the values of the other keys
      show (g value ++ (values (alter key f pairs)).flatMap g).Perm
        (g value ++ (values pairs).flatMap g ++ gain)
      rw [List.append_assoc]
      exact ih.append_left _

end Overlay
