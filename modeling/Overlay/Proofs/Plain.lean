/-
Plain records.

A record is plain if all names in its signature are identifiers: those of parameters, and those of
types, at every depth.  The text of a plain signature can be read.  So can that of the signature
after its names are looked up, as long as what a name stands for is told by the name, or by the name
with its module.

* `WrittenSignature.Plain` — the signatures of plain records;
* `Ty.naming_named` — what names stand for in one scope is told by the names;
* `Ty.naming_linked` — in all scopes it is, with modules that have no quotation mark in their names;
* `Signature.Legible.replace` — looking names up leaves a signature legible;
* `WrittenSignature.Plain.legible_lower` — a plain signature is legible;
* `Signature.Legible.mem_text` — what a text of one is made of.
-/
import Overlay.Proofs.Lowering
import Overlay.Proofs.Ty.Reading
import Overlay.Ty.References

namespace Overlay

/-! ### Plain records -/

mutual

/-- The names of parameters in a written type, at every depth. -/
def WrittenType.labels : WrittenType → List String
  | .named _ => []
  | .function ⟨ps, none⟩ => WrittenType.paramLabels ps
  | .function ⟨ps, some r⟩ => WrittenType.paramLabels ps ++ r.labels
termination_by structural a => a

/-- The names of written parameters, and those of parameters in their types. -/
def WrittenType.paramLabels : List (Param (Option WrittenType)) → List String
  | [] => []
  | ⟨name, none, _, _⟩ :: ps => name :: WrittenType.paramLabels ps
  | ⟨name, some a, _, _⟩ :: ps => name :: a.labels ++ WrittenType.paramLabels ps
termination_by structural ps => ps

end

/-- The names of parameters in a written signature, at every depth. -/
def WrittenSignature.labels (w : WrittenSignature) : List String :=
  WrittenType.paramLabels w.params ++ w.result.elim [] WrittenType.labels

/-- All names in a written type are identifiers.  One that annotates a variadic parameter may carry
the brackets of a list. -/
structure WrittenType.Plain (a : WrittenType) (ofVariadic : Bool) : Prop where
  labels : ∀ name ∈ a.labels, IsIdentifier name
  names : ∀ name ∈ a.names ofVariadic, IsIdentifier (bareName name)

/-- All names in a written signature are identifiers.  One that annotates a variadic parameter may
carry the brackets of a list. -/
structure WrittenSignature.Plain (w : WrittenSignature) : Prop where
  labels : ∀ name ∈ w.labels, IsIdentifier name
  names : ∀ name ∈ w.names, IsIdentifier (bareName name)

/-- All names in the signature of a record are identifiers. -/
def Record.Plain : Record → Prop
  | .stub _ => True
  | .member _ _ w _ => w.Plain

/-- An overload with the signature of a plain record. -/
def Overload.Plain (o : Overload) : Prop :=
  ∃ w : WrittenSignature, w.Plain ∧ o.signature = w.lower

namespace WrittenType

theorem paramLabels_eq_flatMap (ps : List (Param (Option WrittenType))) :
    paramLabels ps = ps.flatMap fun p => p.name :: p.type.elim [] labels := by
  induction ps with
  | nil => rfl
  | cons p ps ih =>
    obtain ⟨name, type, optional, variadic⟩ := p
    cases type with
    | none => exact congrArg (name :: ·) ih
    | some a => exact congrArg (name :: a.labels ++ ·) ih

theorem labels_function (c : WrittenSignature) :
    (function c).labels = WrittenSignature.labels c := by
  obtain ⟨ps, r⟩ := c
  cases r with
  | none => exact (List.append_nil _).symm
  | some r => rfl

end WrittenType

/-! ### Types that are shown by names -/

namespace Ty

/-- The types that come in the place of identifiers, but for `any`. -/
def Named (f : String → Ty) (t : Ty) : Prop :=
  ∃ name, IsIdentifier name ∧ name ∉ worded.map word ∧ t = f name ∧ t ≠ any

/-- The references to declarations, with identifiers for names, whose modules have no quotation mark
in their names. -/
def Linked (t : Ty) : Prop :=
  ∃ key : Key, IsIdentifier key.name ∧ key.name ∉ worded.map word ∧
    (∀ name ∈ key.scope.module?, '"' ∉ name.toList) ∧ t = declared key

/-- A lookup gives a name a type with that name, or `any`. -/
def KeepsNames (f : String → Ty) : Prop :=
  ∀ name, f name = any ∨ (f name).word = name ∧ ∀ s, f name ≠ function s

theorem keepsNames_unresolved : KeepsNames unresolved := fun _ => .inr ⟨rfl, nofun⟩

theorem Named.word_eq {f : String → Ty} (hf : KeepsNames f) {t : Ty} (h : t.Named f) :
    IsIdentifier t.word ∧ t.word ∉ worded.map word ∧ t = f t.word ∧ ∀ s, t ≠ function s := by
  obtain ⟨name, hname, hword, rfl, hany⟩ := h
  obtain ⟨heq, hfunction⟩ := (hf name).resolve_left hany
  rw [heq]
  exact ⟨hname, hword, rfl, hfunction⟩

theorem naming_named {f : String → Ty} (hf : KeepsNames f) : Naming (Named f) where
  isIdentifier _ h := (h.word_eq hf).1
  notWorded _ h := (h.word_eq hf).2.1
  notFunction _ h := (h.word_eq hf).2.2.2
  clear _ _ h h' hword _ _ _ _ _ := by
    rw [(h.word_eq hf).2.2.1, (h'.word_eq hf).2.2.1, hword]

theorem naming_linked : Naming Linked where
  isIdentifier := by
    rintro _ ⟨key, hname, -, -, rfl⟩
    exact hname
  notWorded := by
    rintro _ ⟨key, -, hword, -, rfl⟩
    exact hword
  notFunction := by
    rintro _ ⟨key, -, -, -, rfl⟩
    exact nofun
  clear := by
    rintro _ _ ⟨⟨scope, name⟩, -, -, hquote, rfl⟩ ⟨⟨scope', name'⟩, -, -, hquote', rfl⟩ hword
    obtain rfl : name = name' := hword
    intro A A' hA hA' h
    -- a blank is not the dot behind the name of a module
    have hblank : ∀ (home : String) {A A' : List Char}, (∀ c ∈ A'.getLast?, c = ' ') →
        A ++ (declared ⟨.ambient home, name⟩).stem.toList ≠ A' ++ [] := by
      intro home A A' hA' h
      rw [toList_stem_ambient, ← List.append_assoc, List.append_nil] at h
      have hdot := hA' '.' (by rw [← h, List.getLast?_append]; rfl)
      exact absurd hdot (by decide)
    cases scope with
    | global =>
      cases scope' with
      | global => rfl
      | ambient home' => exact absurd h.symm (hblank home' hA)
    | ambient home =>
      cases scope' with
      | global => exact absurd h (hblank home hA')
      | ambient home' =>
        -- both names of modules stand between the same quotation marks
        have hopen : A ++ '"' :: home.toList = A' ++ '"' :: home'.toList := by
          rw [toList_stem_ambient, toList_stem_ambient] at h
          exact (List.append_left_inj ['"', '.']).mp (by simpa using h)
        have hhome := append_cons_inj_of_last (hquote home rfl) (hquote' home' rfl) hopen
        rw [String.toList_inj.mp hhome.2]

theorem Legible.mono {N N' : Ty → Prop} (hN : ∀ t, N t → N' t) {t : Ty} (h : t.Legible N) :
    t.Legible N' := by
  induction h with
  | word h => exact .word (h.imp id (hN _))
  | function names _ _ params result => exact .function names params result

/-- What is read of a type is read of it when names are looked up. -/
theorem Legible.replace (f : String → Ty) {t : Ty}
    (h : t.Legible (Named unresolved)) : (t.replace f).Legible (Named f) := by
  have hworded : ∀ t ∈ worded, t.replace f = t := by
    simp only [worded, List.forall_mem_cons]
    exact ⟨rfl, rfl, rfl, rfl, List.forall_mem_nil _⟩
  induction h with
  | word h =>
    rcases h with h | ⟨name, hname, hword, rfl, -⟩
    · rw [hworded _ h]
      exact .word (.inl h)
    · rw [replace_unresolved]
      -- a name that stands for `any` is read as a word from now on
      by_cases hany : f name = any
      · exact .word (.inl (hany ▸ List.mem_cons_self ..))
      · exact .word (.inr ⟨name, hname, hword, rfl, hany⟩)
  | @function s names _ _ params result =>
    rw [replace_function]
    refine .function ?_ ?_ result
    · intro p hp
      obtain ⟨q, hq, rfl⟩ := List.mem_map.mp hp
      exact names q hq
    · intro p hp
      obtain ⟨q, hq, rfl⟩ := List.mem_map.mp hp
      exact params q hq

end Ty

namespace Signature.Legible

theorem mono {N N' : Ty → Prop} (hN : ∀ t, N t → N' t) {s : Signature} (h : s.Legible N) :
    s.Legible N' :=
  ⟨h.names, fun p hp => (h.params p hp).mono hN, h.result.mono hN⟩

theorem replace (f : String → Ty) {s : Signature}
    (h : s.Legible (Ty.Named .unresolved)) : (s.replace f).Legible (Ty.Named f) where
  names p hp := by
    obtain ⟨q, hq, rfl⟩ := List.mem_map.mp hp
    exact h.names q hq
  params p hp := by
    obtain ⟨q, hq, rfl⟩ := List.mem_map.mp hp
    exact (h.params q hq).replace f
  result := h.result.replace f

end Signature.Legible

/-! ### Plain signatures -/

theorem Ty.legible_ofName {name : String} (h : IsIdentifier name) :
    (ofName name).Legible (Named unresolved) := by
  refine .word ?_
  rw [ofName]
  split_ifs
  · exact .inl (by decide)
  · exact .inl (by decide)
  · exact .inl (by decide)
  · exact .inl (by decide)
  · refine .inr ⟨name, h, ?_, rfl, by simp⟩
    simp_all [worded, word]

namespace WrittenSignature.Plain

variable {w : WrittenSignature} (h : w.Plain)

include h

theorem name {p : Param (Option WrittenType)} (hp : p ∈ w.params) : IsIdentifier p.name := by
  refine h.labels _ (List.mem_append_left _ ?_)
  rw [WrittenType.paramLabels_eq_flatMap]
  exact List.mem_flatMap.mpr ⟨p, hp, List.mem_cons_self ..⟩

theorem param {p : Param (Option WrittenType)} (hp : p ∈ w.params) {a : WrittenType}
    (ha : p.type = some a) : a.Plain p.variadic where
  labels name hname := by
    refine h.labels name (List.mem_append_left _ ?_)
    rw [WrittenType.paramLabels_eq_flatMap]
    refine List.mem_flatMap.mpr ⟨p, hp, List.mem_cons_of_mem _ ?_⟩
    rwa [ha]
  names name hname := by
    refine h.names name (List.mem_append_left _ ?_)
    rw [WrittenType.paramNames_eq_flatMap]
    refine List.mem_flatMap.mpr ⟨p, hp, ?_⟩
    rwa [ha]

theorem result {a : WrittenType} (ha : w.result = some a) : a.Plain false where
  labels name hname := by
    refine h.labels name (List.mem_append_right _ ?_)
    rwa [ha]
  names name hname := by
    refine h.names name (List.mem_append_right _ ?_)
    rwa [ha]

/-- A plain signature can be read, if this is so of each type that is written in it. -/
theorem legible_lower_of
    (params : ∀ p ∈ w.params, ∀ a ∈ p.type, ∀ ofVariadic, a.Plain ofVariadic →
      (a.lowerAs ofVariadic).Legible (Ty.Named .unresolved))
    (result : ∀ a ∈ w.result, ∀ ofVariadic, a.Plain ofVariadic →
      (a.lowerAs ofVariadic).Legible (Ty.Named .unresolved)) :
    (lower w).Legible (Ty.Named .unresolved) := by
  -- what is not annotated is `any`
  have hany : Ty.any.Legible (Ty.Named .unresolved) := .word (.inl (List.mem_cons_self ..))
  refine ⟨fun p hp => ?_, fun p hp => ?_, ?_⟩
  · rw [params_lower] at hp
    obtain ⟨q, hq, rfl⟩ := List.mem_map.mp hp
    exact h.name hq
  · rw [params_lower] at hp
    obtain ⟨q, hq, rfl⟩ := List.mem_map.mp hp
    cases htype : q.type with
    | none => simpa [Param.lowered, htype] using hany
    | some a => simpa [Param.lowered, htype] using params q hq a htype _ (h.param hq htype)
  · cases hr : w.result with
    | none => simpa [lower, hr] using hany
    | some a => simpa [lower, hr] using result a hr false (h.result hr)

end WrittenSignature.Plain

theorem WrittenType.Plain.legible_lowerAs {a : WrittenType} : ∀ {ofVariadic : Bool},
    a.Plain ofVariadic → (a.lowerAs ofVariadic).Legible (Ty.Named .unresolved) := by
  induction a using WrittenType.induction with
  | named text =>
    intro ofVariadic h
    have hname := h.names _ (List.mem_singleton_self (text, ofVariadic))
    cases ofVariadic <;> exact Ty.legible_ofName hname
  | function c params result =>
    intro ofVariadic h
    -- the names in a written function are those of its signature
    have hc : WrittenSignature.Plain c := by
      refine ⟨?_, ?_⟩
      · rw [← labels_function]
        exact h.labels
      · rw [← names_function c ofVariadic]
        exact h.names
    have hlegible := hc.legible_lower_of (fun p hp a ha _ => params p hp a ha)
      fun a ha _ => result a ha
    rw [lowerAs_function, lower_function]
    exact .function hlegible.names hlegible.params hlegible.result

theorem WrittenSignature.Plain.legible_lower {w : WrittenSignature} (h : w.Plain) :
    (lower w).Legible (Ty.Named .unresolved) :=
  h.legible_lower_of (fun _ _ _ _ _ => WrittenType.Plain.legible_lowerAs)
    fun _ _ _ => WrittenType.Plain.legible_lowerAs

/-! ### Characters -/

/-- The signs between the identifiers in the text of a signature. -/
def Token.signs : List Char :=
  " ():=>,?.[]".toList

theorem Token.mem_chars {A : List Char} {a : Token} (ha : a.Follows (Ty.Named .unresolved) A)
    {c : Char} (hc : c ∈ a.chars) : isIdentifierChar c = true ∨ c ∈ signs := by
  cases a with
  | word t =>
    have hN := Ty.naming_named Ty.keepsNames_unresolved
    -- no module stands in front of what has not been looked up
    have hstem : t.stem = "" := by
      rcases ha.1 with h | ⟨name, -, -, rfl, -⟩
      · clear ha hc
        revert t
        decide
      · rfl
    rw [chars, ha.1.text_eq hN, hstem, String.empty_append] at hc
    exact .inl ((ha.1.isIdentifier hN).chars c hc)
  | name text optional =>
    rw [chars, List.mem_append] at hc
    rcases hc with hc | hc
    · exact .inl (ha.1.chars c hc)
    · have hcolon : (if optional then "?: " else ": ").toList.all (· ∈ signs) = true := by
        cases optional <;> decide
      exact .inr (of_decide_eq_true (List.all_eq_true.mp hcolon c hc))
  | mark m =>
    have hmark : m.text.toList.all (· ∈ signs) = true := by
      cases m <;> decide
    exact .inr (of_decide_eq_true (List.all_eq_true.mp hmark c hc))

/-- The text of a plain signature has nothing but identifiers and the signs between them. -/
theorem Signature.Legible.mem_text {s : Signature} (h : s.Legible (Ty.Named .unresolved)) {c : Char}
    (hc : c ∈ s.text.toList) : isIdentifierChar c = true ∨ c ∈ Token.signs := by
  have hrow := s.row_tokens (Ty.naming_named Ty.keepsNames_unresolved) h
  rw [← s.spell_tokens] at hc
  generalize s.tokens = ts at hrow hc
  induction hrow with
  | nil => exact absurd hc List.not_mem_nil
  | concat _ ha ih =>
    rw [Token.spell_append, List.mem_append, Token.spell_cons, Token.spell_nil,
      List.append_nil] at hc
    exact hc.elim ih (Token.mem_chars ha)

end Overlay
