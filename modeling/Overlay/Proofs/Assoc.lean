/-
Lists of pairs that are filled step by step.

What is collected by key is always collected in one way: a list is gone through, and each of its
elements alters the value of its own key.  This file says what stands in the pairs afterwards:

* `Assoc.keys_foldl_alter` — the keys are those of the elements, each where it came first;
* `Assoc.get?_foldl_alter` — the value of a key comes of the elements with that key alone, in order;
* `Assoc.eq_map_keys` — pairs of which no two have the same key are told by their keys and values;
* `Assoc.get?_places` — an index of keys leads to each of them;
* `Assoc.getElem?_places` — and so to the element that has the key.
-/
import Overlay.Assoc
import Mathlib.Data.List.Induction

namespace Overlay

/-! ### Lists without repetition -/

theorem eraseDups_concat {α : Type} [DecidableEq α] (as : List α) (a : α) :
    (as ++ [a]).eraseDups = if a ∈ as then as.eraseDups else as.eraseDups ++ [a] := by
  rw [List.eraseDups_append]
  by_cases h : a ∈ as
  · rw [if_pos h]
    simp [List.removeAll, h]
  · rw [if_neg h]
    simp [List.removeAll, h, List.eraseDups_cons]

theorem nodup_eraseDups {α : Type} [DecidableEq α] (as : List α) : as.eraseDups.Nodup := by
  induction as using List.reverseRecOn with
  | nil => exact List.nodup_nil
  | append_singleton as a ih =>
    rw [eraseDups_concat]
    by_cases h : a ∈ as
    · rw [if_pos h]
      exact ih
    · rw [if_neg h, List.nodup_append]
      refine ⟨ih, by simp, fun b hb c hc => ?_⟩
      rw [List.mem_singleton.mp hc]
      rintro rfl
      exact h (List.mem_eraseDups.mp hb)

section

variable {α β : Type} [DecidableEq α]

theorem eraseDups_eraseDups (as : List α) : as.eraseDups.eraseDups = as.eraseDups := by
  induction as using List.reverseRecOn with
  | nil => rfl
  | append_singleton as a ih =>
    rw [eraseDups_concat]
    by_cases h : a ∈ as
    · rw [if_pos h, ih]
    · rw [if_neg h, eraseDups_concat, if_neg (List.mem_eraseDups.not.mpr h), ih]

theorem eraseDups_append_eraseDups (as bs : List α) :
    (as.eraseDups ++ bs.eraseDups).eraseDups = (as ++ bs).eraseDups := by
  induction bs using List.reverseRecOn with
  | nil => rw [List.eraseDups_nil, List.append_nil, List.append_nil, eraseDups_eraseDups]
  | append_singleton bs b ih =>
    rw [eraseDups_concat, ← List.append_assoc, eraseDups_concat]
    by_cases h : b ∈ bs
    · rw [if_pos h, if_pos (List.mem_append_right _ h), ih]
    · rw [if_neg h, ← List.append_assoc, eraseDups_concat, ih]
      simp only [List.mem_append, List.mem_eraseDups]

/-- Repetitions may be left out part by part first. -/
theorem eraseDups_flatMap_eraseDups (f : β → List α) (bs : List β) :
    (bs.flatMap fun b => (f b).eraseDups).eraseDups = (bs.flatMap f).eraseDups := by
  induction bs with
  | nil => rfl
  | cons b bs ih =>
    rw [List.flatMap_cons, List.flatMap_cons, ← eraseDups_append_eraseDups, eraseDups_eraseDups, ih,
      eraseDups_append_eraseDups]

/-- Repetitions may be left out before a function is applied. -/
theorem eraseDups_map_eraseDups [DecidableEq β] (f : α → β) (as : List α) :
    (as.eraseDups.map f).eraseDups = (as.map f).eraseDups := by
  induction as using List.reverseRecOn with
  | nil => rfl
  | append_singleton as a ih =>
    rw [eraseDups_concat, List.map_append, List.map_singleton, eraseDups_concat, ← ih]
    by_cases h : a ∈ as
    · rw [if_pos h, if_pos (List.mem_map_of_mem h)]
    · rw [if_neg h, List.map_append, List.map_singleton, eraseDups_concat]
      simp only [List.mem_map, List.mem_eraseDups]

end

/-- What is left of a list without repetitions stands in the order of the first places. -/
theorem pairwise_findIdx_eraseDups {α β : Type} [DecidableEq β] (f : α → β) (as : List α) :
    (as.map f).eraseDups.Pairwise fun b b' =>
      as.findIdx (fun a => f a = b) < as.findIdx (fun a => f a = b') := by
  induction as using List.reverseRecOn with
  | nil => exact List.Pairwise.nil
  | append_singleton as a ih =>
    have hold : ∀ b ∈ (as.map f).eraseDups, as.findIdx (fun a => f a = b) < as.length := by
      intro b hb
      obtain ⟨a', ha', rfl⟩ := List.mem_map.mp (List.mem_eraseDups.mp hb)
      exact List.findIdx_lt_length.mpr ⟨a', ha', decide_eq_true rfl⟩
    -- the first places of what is there already do not change
    have hstay : ∀ b ∈ (as.map f).eraseDups,
        (as ++ [a]).findIdx (fun a => f a = b) = as.findIdx (fun a => f a = b) := by
      intro b hb
      rw [List.findIdx_append, if_pos (hold b hb)]
    have hpairs : (as.map f).eraseDups.Pairwise fun b b' =>
        (as ++ [a]).findIdx (fun a => f a = b) < (as ++ [a]).findIdx (fun a => f a = b') := by
      refine ih.imp_of_mem fun hb hb' hlt => ?_
      rwa [hstay _ hb, hstay _ hb']
    rw [List.map_append, List.map_singleton, eraseDups_concat]
    by_cases h : f a ∈ as.map f
    · rwa [if_pos h]
    · -- a new element comes behind all others
      have hnew : as.length ≤ (as ++ [a]).findIdx (fun a' => f a' = f a) := by
        rw [List.findIdx_append, if_neg]
        · omega
        · rw [List.findIdx_lt_length, not_exists]
          exact fun a' ha' => h (List.mem_map.mpr ⟨a', ha'.1, of_decide_eq_true ha'.2⟩)
      rw [if_neg h, List.pairwise_append]
      refine ⟨hpairs, List.pairwise_singleton .., fun b hb b' hb' => ?_⟩
      rw [List.mem_singleton.mp hb', hstay b hb]
      exact Nat.lt_of_lt_of_le (hold b hb) hnew

/-- Of elements that are made of their keys, the one of a key is found. -/
theorem find?_map_key {α β : Type} [DecidableEq α] {key : β → α} {f : α → β}
    (h : ∀ a, key (f a) = a) (as : List α) (a : α) :
    (as.map f).find? (fun b => key b == a) = if a ∈ as then some (f a) else none := by
  induction as with
  | nil => rfl
  | cons a' as ih =>
    by_cases ha : a' = a
    · simp [h, ha]
    · have ha' : ¬ a = a' := fun e => ha e.symm
      simpa [h, ha, ha'] using ih

namespace Assoc

variable {α β γ : Type} [DecidableEq α]

/-! ### Keys and values -/

theorem get?_eq_none_iff (k : α) (pairs : Assoc α β) : get? k pairs = none ↔ k ∉ keys pairs := by
  induction pairs with
  | nil => simp [get?, keys]
  | cons pair pairs ih =>
    obtain ⟨k', value⟩ := pair
    by_cases h : k' = k
    · simp [get?, keys, h]
    · have h' : ¬ k = k' := fun e => h e.symm
      simpa [get?, keys, h, h'] using ih

theorem get?_of_mem {pairs : Assoc α β} (h : (keys pairs).Nodup) {pair : α × β}
    (hpair : pair ∈ pairs) : get? pair.1 pairs = some pair.2 := by
  induction pairs with
  | nil => exact absurd hpair List.not_mem_nil
  | cons first pairs ih =>
    obtain ⟨hfirst, hrest⟩ := List.nodup_cons.mp h
    rcases List.mem_cons.mp hpair with rfl | hpair
    · exact if_pos rfl
    · have hne : first.1 ≠ pair.1 := fun e => hfirst (e ▸ List.mem_map_of_mem hpair)
      rw [get?, if_neg hne]
      exact ih hrest hpair

theorem get?_map_keys (ks : List α) (g : α → β) (k : α) :
    get? k (ks.map fun k => (k, g k)) = if k ∈ ks then some (g k) else none := by
  induction ks with
  | nil => rfl
  | cons k' ks ih =>
    by_cases h : k' = k
    · simp [get?, h]
    · have h' : ¬ k = k' := fun e => h e.symm
      simp [get?, h, h', ih]

/-- Pairs without a repeated key are their keys, each with its value. -/
theorem eq_map_keys {pairs : Assoc α β} (h : (keys pairs).Nodup) {g : α → β}
    (hg : ∀ k ∈ keys pairs, get? k pairs = some (g k)) :
    pairs = (keys pairs).map fun k => (k, g k) := by
  induction pairs with
  | nil => rfl
  | cons pair pairs ih =>
    obtain ⟨k, value⟩ := pair
    obtain ⟨hk, hrest⟩ := List.nodup_cons.mp h
    have hvalue : value = g k := by
      have := hg k (List.mem_cons_self ..)
      simpa [get?] using this
    -- no key of the others is `k`, so that they are found in the rest
    have htail : ∀ k' ∈ keys pairs, get? k' pairs = some (g k') := by
      intro k' hk'
      have hne : k ≠ k' := fun e => hk (e ▸ hk')
      have := hg k' (List.mem_cons_of_mem _ hk')
      simpa [get?, hne] using this
    rw [hvalue]
    exact congrArg _ (ih hrest htail)

/-- What holds of all values, and of what comes of them, holds of all values afterwards. -/
theorem forall_values_alter {P : β → Prop} (key : α) {f : Option β → β} {pairs : Assoc α β}
    (hpairs : ∀ pair ∈ pairs, P pair.2) (hnone : P (f none)) (hsome : ∀ b, P b → P (f (some b))) :
    ∀ pair ∈ alter key f pairs, P pair.2 := by
  induction pairs with
  | nil =>
    intro pair h
    rw [alter, List.mem_singleton] at h
    rw [h]
    exact hnone
  | cons first pairs ih =>
    obtain ⟨k, value⟩ := first
    have hvalue : P value := hpairs _ (List.mem_cons_self ..)
    have hrest : ∀ pair ∈ pairs, P pair.2 := fun pair h => hpairs pair (List.mem_cons_of_mem _ h)
    intro pair h
    -- only the value of the key has changed
    by_cases hkey : k = key
    · rw [alter, if_pos hkey] at h
      rcases List.mem_cons.mp h with rfl | h
      · exact hsome value hvalue
      · exact hrest pair h
    · rw [alter, if_neg hkey] at h
      rcases List.mem_cons.mp h with rfl | h
      · exact hvalue
      · exact ih hrest pair h

/-- Where a key has a value already that stays as it is, nothing changes. -/
theorem alter_eq_self {key : α} {f : Option β → β} {pairs : Assoc α β} (hmem : key ∈ keys pairs)
    (hf : ∀ value, f (some value) = value) : alter key f pairs = pairs := by
  induction pairs with
  | nil => exact absurd hmem List.not_mem_nil
  | cons pair pairs ih =>
    obtain ⟨k, value⟩ := pair
    by_cases hkey : k = key
    · rw [alter, if_pos hkey, hf]
    · rcases List.mem_cons.mp hmem with heq | hmem
      · exact absurd heq.symm hkey
      · rw [alter, if_neg hkey, ih hmem]

theorem map_alter {key : α} {f : Option β → β} {f' : Option γ → γ} {g : β → γ}
    (h : ∀ b?, g (f b?) = f' (b?.map g)) (pairs : Assoc α β) :
    (alter key f pairs).map (fun p => (p.1, g p.2))
      = alter key f' (pairs.map fun p => (p.1, g p.2)) := by
  induction pairs with
  | nil => rw [alter, List.map_singleton, h]; rfl
  | cons pair pairs ih =>
    obtain ⟨k, value⟩ := pair
    rw [alter, List.map_cons, alter]
    by_cases hkey : k = key
    · rw [if_pos hkey, if_pos hkey, List.map_cons, h]
      rfl
    · rw [if_neg hkey, if_neg hkey, List.map_cons, ih]

/-! ### Filling -/

theorem keys_foldl_alter (key : γ → α) (f : γ → Option β → β) (cs : List γ) :
    keys (cs.foldl (fun pairs c => pairs.alter (key c) (f c)) []) = (cs.map key).eraseDups := by
  induction cs using List.reverseRecOn with
  | nil => rfl
  | append_singleton cs c ih =>
    rw [List.foldl_append, List.foldl_cons, List.foldl_nil, keys_alter, ih, List.map_append,
      List.map_singleton, eraseDups_concat]
    simp only [List.mem_eraseDups]

theorem get?_foldl_alter (key : γ → α) (f : γ → Option β → β) (cs : List γ) (k : α) :
    get? k (cs.foldl (fun pairs c => pairs.alter (key c) (f c)) [])
      = (cs.filter fun c => key c = k).foldl (fun b? c => some (f c b?)) none := by
  induction cs using List.reverseRecOn with
  | nil => rfl
  | append_singleton cs c ih =>
    rw [List.foldl_append, List.foldl_cons, List.foldl_nil, get?_alter, List.filter_append,
      List.foldl_append]
    -- the last element alters the value of its own key and passes the others by
    by_cases h : k = key c
    · subst h
      simp [ih]
    · have h' : ¬ key c = k := fun e => h e.symm
      simp [h, h', ih]

theorem foldl_concat (cs : List γ) : cs.foldl (fun bs c => bs ++ [c]) [] = cs := by
  induction cs using List.reverseRecOn with
  | nil => rfl
  | append_singleton cs c ih => rw [List.foldl_append, ih, List.foldl_cons, List.foldl_nil]

/-- Values that start from the same one and take in one element after the other. -/
theorem foldl_some_getD (g : β → γ → β) (b : β) (cs : List γ) :
    cs.foldl (fun b? c => some (g (b?.getD b) c)) none
      = if cs = [] then none else some (cs.foldl g b) := by
  induction cs using List.reverseRecOn with
  | nil => rfl
  | append_singleton cs c ih =>
    rw [List.foldl_append, List.foldl_append, ih]
    by_cases h : cs = []
    · simp [h]
    · simp [h]

/-- Values that stay what the first element made them. -/
theorem foldl_some_getD_first (g : γ → β) (cs : List γ) :
    cs.foldl (fun b? c => some (b?.getD (g c))) none = cs.head?.map g := by
  induction cs using List.reverseRecOn with
  | nil => rfl
  | append_singleton cs c ih =>
    rw [List.foldl_append, ih]
    cases cs <;> simp

/-! ### Indexes -/

/-- An index leads to each of its keys, and nowhere else. -/
theorem get?_places {ks : List α} (h : ks.Nodup) (k : α) (i : Nat) :
    get? k (places ks) = some i ↔ ks[i]? = some k := by
  induction ks using List.reverseRecOn with
  | nil => simp [places, get?]
  | append_singleton ks k' ih =>
    obtain ⟨hks, -, hnew⟩ := List.nodup_append.mp h
    have hk' : k' ∉ ks := fun hmem => hnew k' hmem k' (List.mem_singleton_self k') rfl
    have hstep : places (ks ++ [k']) = (places ks).alter k' fun _ => ks.length := by
      simp [places, List.zipIdx_append]
    rw [hstep, get?_alter]
    -- only the new key leads to the new place, and no other leads past the old ones
    by_cases hkey : k = k'
    · subst hkey
      rw [if_pos rfl]
      constructor
      · intro hi
        obtain rfl : ks.length = i := by simpa using hi
        simp
      · intro hi
        rcases Nat.lt_trichotomy i ks.length with hlt | rfl | hgt
        · rw [List.getElem?_append_left hlt] at hi
          exact absurd (List.mem_of_getElem? hi) hk'
        · rfl
        · rw [List.getElem?_eq_none (by simp; omega)] at hi
          exact absurd hi (by simp)
    · rw [if_neg hkey, ih hks]
      rcases Nat.lt_or_ge i ks.length with hlt | hge
      · rw [List.getElem?_append_left hlt]
      · rw [List.getElem?_eq_none hge, List.getElem?_append_right hge, List.getElem?_singleton]
        by_cases hi : i - ks.length = 0
        · have hkey' : ¬ k' = k := fun e => hkey e.symm
          simp [hi, hkey']
        · simp [hi]

/-- By an index of its keys, a list is asked for the element that has a key. -/
theorem getElem?_places {key : γ → α} {cs : List γ} (h : (cs.map key).Nodup) (k : α) (c : γ) :
    ((places (cs.map key)).get? k).bind (cs[·]?) = some c ↔ c ∈ cs ∧ key c = k := by
  rw [Option.bind_eq_some_iff]
  -- the list and its keys are gone through by the same places
  constructor
  · rintro ⟨i, hi, hc⟩
    rw [get?_places h, List.getElem?_map, hc] at hi
    exact ⟨List.mem_of_getElem? hc, Option.some.inj hi⟩
  · rintro ⟨hmem, rfl⟩
    obtain ⟨i, hi⟩ := List.getElem?_of_mem hmem
    refine ⟨i, ?_, hi⟩
    rw [get?_places h, List.getElem?_map, hi]
    rfl

end Assoc

end Overlay
