/-
What lowering keeps of a record.

A written function type and the type that it is lowered to are entered in the same ways: through a
parameter or through the result.  Whatever is reached in the record has its counterpart, with the
same parameters, in the signature.  The names in the signature are those of the record, in the same
order, but without the words that stand for types of their own.

* `Param.lowered` — the parameter that is written, on its own;
* `WrittenSignature.inner?_lower` — a way into the record leads to the lowered signature;
* `Signature.inner?_lower` — and a way into the signature comes from the record, or from the word
  `Function`;
* `WrittenType.references_lowerAs` — the names in the type of a parameter or of a result;
* `WrittenSignature.kept_lower` — the three in one statement.
-/
import Overlay.Proofs.Closed
import Overlay.Proofs.RoundTrip

namespace Overlay

/-! ### Ways into a signature -/

/-- A step into a signature: to the type of a parameter, or to the result. -/
inductive Turn where
  | param (index : Nat)
  | result

/-- What is known of a parameter without its type. -/
def Param.heading {α : Type} (p : Param α) : String × Bool × Bool :=
  (p.name, p.optional, p.variadic)

def WrittenType.signature? : WrittenType → Option WrittenSignature
  | .named _ => none
  | .function callable => some callable

/-- The type that is written at a step. -/
def WrittenSignature.at? (w : WrittenSignature) : Turn → Option WrittenType
  | .param index => w.params[index]?.bind Param.type
  | .result => w.result

/-- The written function type at the end of a way. -/
def WrittenSignature.inner? (w : WrittenSignature) : List Turn → Option WrittenSignature
  | [] => some w
  | turn :: way => ((w.at? turn).bind WrittenType.signature?).bind (inner? · way)

/-- The type at a step. -/
def Signature.at? (s : Signature) : Turn → Option Ty
  | .param index => s.params[index]?.map Param.type
  | .result => some s.result

/-- The signature of the function type at the end of a way. -/
def Signature.inner? (s : Signature) : List Turn → Option Signature
  | [] => some s
  | turn :: way => ((s.at? turn).bind Ty.signature?).bind (inner? · way)

/-! ### Written names -/

mutual

/-- The type names in a written type as they are read, each with whether it annotates a variadic
parameter; of the type itself this is given. -/
def WrittenType.names : WrittenType → Bool → List (String × Bool)
  | .named text, ofVariadic => [(text, ofVariadic)]
  | .function ⟨ps, none⟩, _ => WrittenType.paramNames ps
  | .function ⟨ps, some r⟩, _ => WrittenType.paramNames ps ++ r.names false
termination_by structural a => a

/-- The type names in written parameters. -/
def WrittenType.paramNames : List (Param (Option WrittenType)) → List (String × Bool)
  | [] => []
  | ⟨_, none, _, _⟩ :: ps => WrittenType.paramNames ps
  | ⟨_, some a, _, variadic⟩ :: ps => a.names variadic ++ WrittenType.paramNames ps
termination_by structural ps => ps

end

/-- The type names in a written signature, parameters before the result. -/
def WrittenSignature.names (w : WrittenSignature) : List (String × Bool) :=
  WrittenType.paramNames w.params ++ w.result.elim [] (·.names false)

/-- The words that stand for types of their own. -/
def typeWords : List String :=
  ["any", "string", "void", "Function"]

/-- The name that is meant: where a variadic parameter is annotated, the name of the elements. -/
def bareName : String × Bool → String
  | (text, true) => elementName text
  | (text, false) => text

/-- The names that are meant, without the words that stand for types of their own. -/
def namesToLookUp (names : List (String × Bool)) : List String :=
  (names.map bareName).filter (· ∉ typeWords)

/-- A signature says what is written in a record. -/
structure WrittenSignature.Kept (w : WrittenSignature) (s : Signature) : Prop where
  /-- At the end of each way, the parameters are those of the record. -/
  params : ∀ way inner, w.inner? way = some inner →
    ∃ t, s.inner? way = some t ∧ t.params.map Param.heading = inner.params.map Param.heading
  /-- No way leads to more, but for the signature that the word `Function` stands for. -/
  ways : ∀ way t, s.inner? way = some t →
    t = Signature.untyped ∨ ∃ inner, w.inner? way = some inner
  unlinked : (Ty.function s).Unlinked
  references : s.references = namesToLookUp w.names

/-! ### Names of elements -/

/-- Of the name of a list type, one pair of brackets is taken off. -/
theorem elementName_append (name : String) : elementName (name ++ "[]") = name := by
  simp [elementName]

theorem elementName_eq_self {name : String} (h : ∀ stem, name ≠ stem ++ "[]") :
    elementName name = name := by
  rw [elementName]
  split
  · rename_i rest hname
    refine absurd ?_ (h (String.ofList rest.reverse))
    rw [← String.toList_inj, ← List.reverse_inj, hname]
    simp
  · rfl

/-! ### Parameters one by one -/

/-- The type that is written as an annotation. -/
def WrittenType.lowerAs : WrittenType → Bool → Ty
  | .named text, true => .ofName (elementName text)
  | a, _ => a.lower

/-- The parameter that is written. -/
def Param.lowered (p : Param (Option WrittenType)) : Param Ty :=
  { p with type := p.type.elim .any (·.lowerAs p.variadic) }

@[simp] theorem WrittenType.lowerAs_function (c : WrittenSignature) (ofVariadic : Bool) :
    (function c).lowerAs ofVariadic = (function c).lower := by
  cases ofVariadic <;> rfl

@[simp] theorem WrittenType.lowerAs_false (a : WrittenType) : a.lowerAs false = a.lower := by
  cases a <;> rfl

theorem WrittenType.lowerParams_eq_map (ps : List (Param (Option WrittenType))) :
    lowerParams ps = ps.map Param.lowered := by
  induction ps with
  | nil => rfl
  | cons p ps ih =>
    rw [List.map_cons, ← ih]
    obtain ⟨name, type, optional, variadic⟩ := p
    rcases type with _ | text | c <;> cases variadic <;> rfl

@[simp] theorem WrittenType.lower_function (c : WrittenSignature) :
    (function c).lower = .function (WrittenSignature.lower c) := by
  obtain ⟨ps, r⟩ := c
  cases r <;> rfl

theorem WrittenSignature.params_lower (w : WrittenSignature) :
    (lower w).params = w.params.map Param.lowered :=
  WrittenType.lowerParams_eq_map w.params

/-! ### Ways into a record -/

/-- A type that is lowered is a function if a function is written, or if the word `Function` is. -/
theorem WrittenType.signature?_lowerAs (a : WrittenType) (ofVariadic : Bool) :
    (a.lowerAs ofVariadic).signature? = a.signature?.map WrittenSignature.lower
      ∨ a.signature? = none ∧ (a.lowerAs ofVariadic).signature? = some Signature.untyped := by
  have hname : ∀ name, (Ty.ofName name).signature? = none
      ∨ (Ty.ofName name).signature? = some Signature.untyped := by
    intro name
    simp only [Ty.ofName]
    split_ifs <;> simp [Ty.signature?]
  cases a with
  | function c => exact .inl (by simp [signature?, Ty.signature?])
  | named text =>
    cases ofVariadic with
    | true => exact (hname (elementName text)).imp id fun h => ⟨rfl, h⟩
    | false => exact (hname text).imp id fun h => ⟨rfl, h⟩

namespace WrittenSignature

/-- A step into a record is one into the lowered signature, which has no others than those to the
word `Function`. -/
theorem enter_lower (w : WrittenSignature) (turn : Turn) :
    ((lower w).at? turn).bind Ty.signature?
        = ((w.at? turn).bind WrittenType.signature?).map lower
      ∨ (w.at? turn).bind WrittenType.signature? = none
        ∧ ((lower w).at? turn).bind Ty.signature? = some Signature.untyped := by
  cases turn with
  | param index =>
    rw [Signature.at?, params_lower, List.getElem?_map, at?]
    cases w.params[index]? with
    | none => exact .inl rfl
    | some p =>
      cases htype : p.type with
      -- what is not annotated is `any`, where no signature is to be entered
      | none => exact .inl (by simp [Param.lowered, htype, Ty.signature?])
      | some a => simpa [Param.lowered, htype] using a.signature?_lowerAs p.variadic
  | result =>
    rw [Signature.at?, at?, lower]
    cases w.result with
    | none => exact .inl rfl
    | some a => simpa using a.signature?_lowerAs false

theorem inner?_lower {w : WrittenSignature} {way : List Turn} {inner : WrittenSignature}
    (h : w.inner? way = some inner) : (lower w).inner? way = some (lower inner) := by
  induction way generalizing w with
  | nil => rw [← Option.some.inj h, Signature.inner?]
  | cons turn way ih =>
    obtain ⟨c, hc, hway⟩ := Option.bind_eq_some_iff.mp h
    rw [Signature.inner?]
    rcases enter_lower w turn with hturn | ⟨hnone, -⟩
    · rw [hturn, hc]
      exact ih hway
    · exact absurd (hnone.symm.trans hc) nofun

end WrittenSignature

namespace Signature

/-- There is no way into the signature of any function at all. -/
theorem eq_of_inner?_untyped {way : List Turn} {t : Signature} (h : untyped.inner? way = some t) :
    t = untyped := by
  cases way with
  | nil => exact (Option.some.inj h).symm
  | cons turn way =>
    have hturn : (untyped.at? turn).bind Ty.signature? = none := by
      rcases turn with (_ | index) | _ <;> rfl
    rw [inner?, hturn] at h
    exact absurd h nofun

theorem inner?_lower {w : WrittenSignature} {way : List Turn} {t : Signature}
    (h : (WrittenSignature.lower w).inner? way = some t) :
    t = untyped ∨ ∃ inner, w.inner? way = some inner := by
  induction way generalizing w with
  | nil => exact .inr ⟨w, rfl⟩
  | cons turn way ih =>
    rw [inner?] at h
    rcases WrittenSignature.enter_lower w turn with hturn | ⟨-, hturn⟩
    · rw [hturn] at h
      obtain ⟨s, hs, hway⟩ := Option.bind_eq_some_iff.mp h
      obtain ⟨c, hc, rfl⟩ := Option.map_eq_some_iff.mp hs
      refine (ih hway).imp id fun ⟨inner, hinner⟩ => ⟨inner, ?_⟩
      rw [WrittenSignature.inner?, hc]
      exact hinner
    · rw [hturn] at h
      exact .inl (eq_of_inner?_untyped h)

end Signature

/-! ### References -/

/-- A name is looked up unless it is a word that stands for a type of its own. -/
theorem Ty.references_ofName (name : String) : (ofName name).references
    = [name].filter (· ∉ typeWords) := by
  rw [ofName]
  split_ifs <;> simp_all [references, paramReferences, Signature.untyped, typeWords]

theorem namesToLookUp_append (names names' : List (String × Bool)) :
    namesToLookUp (names ++ names') = namesToLookUp names ++ namesToLookUp names' := by
  simp [namesToLookUp]

namespace WrittenType

theorem paramNames_eq_flatMap (ps : List (Param (Option WrittenType))) :
    paramNames ps = ps.flatMap fun p => p.type.elim [] (·.names p.variadic) := by
  induction ps with
  | nil => rfl
  | cons p ps ih =>
    obtain ⟨name, type, optional, variadic⟩ := p
    cases type with
    | none => exact ih
    | some a => exact congrArg (a.names variadic ++ ·) ih

theorem names_function (c : WrittenSignature) (ofVariadic : Bool) :
    (function c).names ofVariadic = WrittenSignature.names c := by
  obtain ⟨ps, r⟩ := c
  cases r with
  | none => exact (List.append_nil _).symm
  | some r => rfl

end WrittenType

/-- The names in a lowered signature are those of the record, if this is so of each type that is
written in it. -/
theorem WrittenSignature.references_lower_of {w : WrittenSignature}
    (params : ∀ p ∈ w.params, ∀ a ∈ p.type, ∀ ofVariadic,
      (a.lowerAs ofVariadic).references = namesToLookUp (a.names ofVariadic))
    (result : ∀ a ∈ w.result, ∀ ofVariadic,
      (a.lowerAs ofVariadic).references = namesToLookUp (a.names ofVariadic)) :
    (lower w).references = namesToLookUp w.names := by
  -- each parameter is looked up by itself: the records of the others do not matter
  have hparams : (w.params.map Param.lowered).flatMap (·.type.references)
      = namesToLookUp (WrittenType.paramNames w.params) := by
    rw [WrittenType.paramNames_eq_flatMap]
    clear result
    generalize w.params = ps at params
    induction ps with
    | nil => rfl
    | cons p ps ih =>
      have hp : p.lowered.type.references
          = namesToLookUp (p.type.elim [] (·.names p.variadic)) := by
        cases htype : p.type with
        | none => simp [Param.lowered, htype, Ty.references, namesToLookUp]
        | some a => simpa [Param.lowered, htype] using params p (.head _) a htype p.variadic
      rw [List.map_cons, List.flatMap_cons, List.flatMap_cons, namesToLookUp_append, hp,
        ih fun p' hp' => params p' (.tail _ hp')]
  have hresult : (w.result.elim .any WrittenType.lower).references
      = namesToLookUp (w.result.elim [] (·.names false)) := by
    cases hr : w.result with
    | none => rfl
    | some a => simpa using result a hr false
  rw [names, namesToLookUp_append, ← hparams, ← hresult, Signature.references, params_lower]
  rfl

theorem WrittenType.references_lowerAs (a : WrittenType) : ∀ ofVariadic,
    (a.lowerAs ofVariadic).references = namesToLookUp (a.names ofVariadic) := by
  induction a using WrittenType.induction with
  | named text =>
    intro ofVariadic
    cases ofVariadic <;> exact Ty.references_ofName _
  | function c params result =>
    intro ofVariadic
    rw [lowerAs_function, lower_function, Ty.references_function, names_function]
    exact WrittenSignature.references_lower_of params result

/-! ### Records -/

namespace WrittenSignature

theorem references_lower (w : WrittenSignature) :
    (lower w).references = namesToLookUp w.names :=
  references_lower_of (fun _ _ a _ => a.references_lowerAs) fun a _ => a.references_lowerAs

/-- Lowering keeps all that is written: at each depth the parameters of the record, no reference to
a declaration, and the names of the record in their order. -/
theorem kept_lower (w : WrittenSignature) : w.Kept (lower w) where
  params way inner h := by
    refine ⟨lower inner, inner?_lower h, ?_⟩
    rw [params_lower, List.map_map]
    rfl
  ways _ _ h := Signature.inner?_lower h
  unlinked := unlinked_lower w
  references := references_lower w

end WrittenSignature

end Overlay
