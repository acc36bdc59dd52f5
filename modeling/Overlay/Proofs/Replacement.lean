/-
What replacing names comes to.

The names in a signature are listed in one pass over it and replaced in another.  Both passes come
to the same places in the same order, so that a function which gives types for names is asked for
the names in the list, one after the other, and what stands in any other place is left as it is:

* `Ty.replaceM_telling` — what is done whenever a type is asked for is done for the list of names;
* `Ty.references_replaceM` — the names in the result are those of the types that were given;
* `Signature.inner?_replace` — a way into a signature leads to its counterpart in the result;
* `Signature.inner?_of_inner?_replace` — any other way goes through the place of a name;
* `Signature.replaced_replace` — all this in one statement, and what it means for flaws.
-/
import Overlay.Proofs.Lowering
import Overlay.Proofs.Ty.Shape

namespace Overlay

/-! ### What is asked of a replacement -/

/-- Notes a name behind those that were noted before. -/
def Ty.note (name : String) : StateM (List String) PUnit :=
  modify (· ++ [name])

/-- The type that `f` gives for a name, and a note that it was asked for. -/
def Ty.noting (f : String → Ty) (name : String) : StateM (List String) Ty := do
  note name
  return f name

/-- The type at a step from the end of a way into a signature. -/
def Signature.typeAt? (s : Signature) (way : List Turn) (turn : Turn) : Option Ty :=
  (s.inner? way).bind (·.at? turn)

/-- The second signature is the first one with what `f` gives for it in the place of each name, and
nothing else is done. -/
structure Signature.Replaced (f : String → Ty) (s t : Signature) : Prop where
  /-- The names in the list are asked for in order, each as often as it is there, and no others. -/
  asked : ∀ noted, ((Ty.function s).replaceM (Ty.noting f)).run noted
    = (Ty.function t, noted ++ s.references)
  references : t.references = s.references.flatMap fun name => (f name).references
  /-- At the end of each way there are as many parameters as before, with their names and flags. -/
  params : ∀ way inner, s.inner? way = some inner →
    ∃ u, t.inner? way = some u ∧ u.params.map Param.heading = inner.params.map Param.heading
  names : ∀ way turn name, s.typeAt? way turn = some (.unresolved name) →
    t.typeAt? way turn = some (f name)
  /-- A type without names in it is left as it is. -/
  others : ∀ way turn u, s.typeAt? way turn = some u → u.references = [] →
    t.typeAt? way turn = some u
  /-- Any other way leads through the place of a name, into the type that is given for it. -/
  ways : ∀ way u, t.inner? way = some u → (∃ inner, s.inner? way = some inner) ∨
    ∃ before turn after name, way = before ++ turn :: after ∧
      s.typeAt? before turn = some (.unresolved name) ∧
      (f name).signature?.bind (·.inner? after) = some u
  /-- If no function type is given for a name, the same flaw is found as before, or none. -/
  flaw : (∀ name ∈ s.references, (f name).signature? = none) → t.flaw? = s.flaw?

/-! ### Names that are asked for -/

namespace Ty

section Effects

variable {m : Type → Type} [Monad m] [LawfulMonad m]

theorem replaceParamsM_telling {tell : String → m PUnit} {f : String → Ty} {ps : List (Param Ty)}
    (h : ∀ p ∈ ps, (p.type.replaceM fun name => do tell name; pure (f name))
      = do p.type.references.forM tell; pure (p.type.replace f)) :
    replaceParamsM (fun name => do tell name; pure (f name)) ps
      = (do
        (paramReferences ps).forM tell
        pure (ps.map fun p => { p with type := p.type.replace f })) := by
  induction ps with
  | nil => simp [replaceParamsM, paramReferences]
  | cons p ps ih =>
    have hp := h p (.head _)
    have ih := ih fun p' hp' => h p' (.tail _ hp')
    obtain ⟨name, t, optional, variadic⟩ := p
    simp only [replaceParamsM, hp, ih, paramReferences]
    simp

/-- What is done whenever a type is asked for is done for the names in the list, one after the
other, and for no others. -/
theorem replaceM_telling (tell : String → m PUnit) (f : String → Ty) (t : Ty) :
    (t.replaceM fun name => do tell name; pure (f name))
      = (do t.references.forM tell; pure (t.replace f)) := by
  induction t using Ty.induction with
  | function s params result =>
    obtain ⟨ps, r⟩ := s
    rw [replace_function]
    simp only [replaceM, replaceParamsM_telling params, result, references, Signature.replace]
    simp
  | any | string | void => simp [replaceM, references]
  | unresolved name => simp [replaceM, references]
  | declared key => simp [replaceM, references]

theorem paramReferences_replaceParamsM {f : String → m Ty} {ps : List (Param Ty)}
    (h : ∀ p ∈ ps, references <$> p.type.replaceM f
      = (·.flatMap references) <$> p.type.references.mapM f) :
    paramReferences <$> replaceParamsM f ps
      = (·.flatMap references) <$> (paramReferences ps).mapM f := by
  induction ps with
  | nil => simp [replaceParamsM, paramReferences]
  | cons p ps ih =>
    obtain ⟨hp, hps⟩ := List.forall_mem_cons.mp h
    obtain ⟨name, t, optional, variadic⟩ := p
    -- the names of the first parameter are asked for before those of the others
    calc paramReferences <$> replaceParamsM f (⟨name, t, optional, variadic⟩ :: ps)
      _ = (do
          let names ← references <$> t.replaceM f
          let more ← paramReferences <$> replaceParamsM f ps
          pure (names ++ more)) := by simp [replaceParamsM, paramReferences]
      _ = _ := by
        rw [hp, ih hps]
        simp [paramReferences, List.mapM_append]

/-- If types are asked for by their names alone, one after the other, the names in them are those in
the result. -/
theorem references_replaceM (f : String → m Ty) (t : Ty) :
    references <$> t.replaceM f = (·.flatMap references) <$> t.references.mapM f := by
  induction t using Ty.induction with
  | function s params result =>
    obtain ⟨ps, r⟩ := s
    -- the names of the parameters come before those of the result
    calc references <$> (function ⟨ps, r⟩).replaceM f
      _ = (do
          let names ← paramReferences <$> replaceParamsM f ps
          let more ← references <$> r.replaceM f
          pure (names ++ more)) := by simp [replaceM, references]
      _ = _ := by
        rw [paramReferences_replaceParamsM params, result]
        simp [references, List.mapM_append]
  | any | string | void => simp [replaceM, references]
  | unresolved name => simp [replaceM, references]
  | declared key => simp [replaceM, references]

end Effects

theorem references_replace (f : String → Ty) (t : Ty) : (t.replace f).references
    = t.references.flatMap fun name => (f name).references := by
  have h := references_replaceM (m := Id) (fun name => pure (f name)) t
  simpa [replace, List.flatMap_map] using congrArg Id.run h

/-- Replacing names leaves behind what asking for the types in the list does, and the names in these
types. -/
theorem exists_types_of_replaceM {σ : Type} (f : String → StateM σ Ty) (memory : σ) (t : Ty) :
    ∃ t' types memory', (t.replaceM f).run memory = (t', memory') ∧
      (t.references.mapM f).run memory = (types, memory') ∧
      t'.references = types.flatMap references := by
  obtain ⟨hnames, hmemory⟩ := Prod.mk.inj (congrArg (·.run memory) (references_replaceM f t))
  exact ⟨_, _, _, rfl, Prod.ext rfl hmemory.symm, hnames⟩

/-! ### Notes of names -/

theorem run_forM_note (names noted : List String) :
    (names.forM note).run noted = (PUnit.unit, noted ++ names) := by
  induction names generalizing noted with
  | nil => rw [List.append_nil]; rfl
  | cons name names ih =>
    calc ((name :: names).forM note).run noted
      _ = (names.forM note).run (noted ++ [name]) := rfl
      _ = (PUnit.unit, noted ++ name :: names) := by
        rw [ih, List.append_assoc, List.singleton_append]

theorem run_replaceM_noting (f : String → Ty) (t : Ty) (noted : List String) :
    (t.replaceM (noting f)).run noted = (t.replace f, noted ++ t.references) := by
  have htell : t.replaceM (noting f) = (do t.references.forM note; pure (t.replace f)) :=
    replaceM_telling note f t
  rw [htell, StateT.run_bind]
  exact congrArg (fun told => (t.replace f, told.2)) (run_forM_note t.references noted)

end Ty

/-! ### Ways into a signature -/

/-- A type is a function afterwards if it was one, or if it was a name that a function type is given
for. -/
theorem Ty.signature?_replace (f : String → Ty) (t : Ty) :
    (∃ name, t = .unresolved name)
      ∨ (t.replace f).signature? = t.signature?.map (Signature.replace f) := by
  cases t with
  | unresolved name => exact .inl ⟨name, rfl⟩
  | function s => exact .inr (by simp [signature?])
  | _ => exact .inr rfl

namespace Signature

variable {f : String → Ty} {s : Signature} {way : List Turn} {turn : Turn}

theorem at?_replace (f : String → Ty) (s : Signature) (turn : Turn) :
    (s.replace f).at? turn = (s.at? turn).map (Ty.replace f) := by
  cases turn with
  | param index =>
    rw [at?, at?, replace, List.getElem?_map, Option.map_map, Option.map_map]
    rfl
  | result => rfl

/-- A step into a signature is one into the result, which has no others than those into types that
are given for names. -/
theorem enter_replace (f : String → Ty) (s : Signature) (turn : Turn) :
    (∃ name, s.at? turn = some (.unresolved name))
      ∨ ((s.replace f).at? turn).bind Ty.signature?
        = ((s.at? turn).bind Ty.signature?).map (replace f) := by
  rw [at?_replace]
  cases s.at? turn with
  | none => exact .inr rfl
  | some t => simpa using Ty.signature?_replace f t

theorem inner?_replace {inner : Signature} (h : s.inner? way = some inner) :
    (s.replace f).inner? way = some (inner.replace f) := by
  induction way generalizing s with
  | nil => rw [← Option.some.inj h, inner?]
  | cons turn way ih =>
    obtain ⟨c, hc, hway⟩ := Option.bind_eq_some_iff.mp h
    rw [inner?]
    rcases enter_replace f s turn with ⟨name, hname⟩ | hturn
    · rw [hname] at hc
      exact absurd hc (by simp [Ty.signature?])
    · rw [hturn, hc]
      exact ih hway

theorem typeAt?_replace {t : Ty} (h : s.typeAt? way turn = some t) :
    (s.replace f).typeAt? way turn = some (t.replace f) := by
  obtain ⟨inner, hinner, ht⟩ := Option.bind_eq_some_iff.mp h
  rw [typeAt?, inner?_replace hinner, Option.bind_some, at?_replace, ht, Option.map_some]

/-- A way into the result is one into the signature, or it goes through the place of a name. -/
theorem inner?_of_inner?_replace {u : Signature} (h : (s.replace f).inner? way = some u) :
    (∃ inner, s.inner? way = some inner) ∨
      ∃ before turn after name, way = before ++ turn :: after ∧
        s.typeAt? before turn = some (.unresolved name) ∧
        (f name).signature?.bind (·.inner? after) = some u := by
  induction way generalizing s with
  | nil => exact .inl ⟨s, rfl⟩
  | cons turn way ih =>
    rw [inner?] at h
    rcases enter_replace f s turn with ⟨name, hname⟩ | hturn
    · -- from the first name on, the way is one into the type that is given for it
      rw [at?_replace, hname, Option.map_some, Ty.replace_unresolved] at h
      exact .inr ⟨[], turn, way, name, rfl, hname, h⟩
    · rw [hturn] at h
      obtain ⟨c', hc', hway⟩ := Option.bind_eq_some_iff.mp h
      obtain ⟨c, hc, rfl⟩ := Option.map_eq_some_iff.mp hc'
      -- the first turn is one of the signature; the rest of the way is known by induction
      rcases ih hway with ⟨inner, hinner⟩ | ⟨before, turn', after, name, rfl, hname, hu⟩
      · refine .inl ⟨inner, ?_⟩
        rw [inner?, hc]
        exact hinner
      · refine .inr ⟨turn :: before, turn', after, name, rfl, ?_, hu⟩
        rw [typeAt?, inner?, hc]
        exact hname

end Signature

/-! ### The replacement as a whole -/

namespace Signature

theorem replaced (s : Signature) (f : String → Ty) : s.Replaced f (s.replace f) where
  asked noted := by rw [Ty.run_replaceM_noting, Ty.replace_function, Ty.references_function]
  references := by
    rw [← Ty.references_function, ← Ty.replace_function, Ty.references_replace,
      Ty.references_function]
  params way inner h := by
    refine ⟨inner.replace f, inner?_replace h, ?_⟩
    rw [replace, List.map_map]
    rfl
  names way turn name h := by rw [typeAt?_replace h, Ty.replace_unresolved]
  others way turn u h hu := by rw [typeAt?_replace h, Ty.replace_eq_self f hu]
  ways way u h := inner?_of_inner?_replace h
  flaw h := by
    -- what is no function type is without flaws
    refine flaw?_replace fun name hname => (Ty.flaw?_eq_none_iff _).mpr ?_
    simp [h name hname]

/-- Replacing names asks for the names in the list, in that order, and leaves all else as it is.
This is so even if what is given for a name depends on the names that were asked for before. -/
theorem replaced_replace (s : Signature) :
    (∀ f, s.Replaced f (s.replace f)) ∧
    ∀ (σ : Type) (f : String → StateM σ Ty) (memory : σ), ∃ t types memory',
      ((Ty.function s).replaceM f).run memory = (t, memory') ∧
      (s.references.mapM f).run memory = (types, memory') ∧
      t.references = types.flatMap Ty.references := by
  refine ⟨replaced s, fun σ f memory => ?_⟩
  have htypes := Ty.exists_types_of_replaceM f memory (.function s)
  rwa [Ty.references_function] at htypes

/-- A callback takes a node that is found, behind a key that is not, which is a flaw before and
after; the type of the result is put off under another name. -/
theorem replaced_replace_callback :
    let callback : Signature :=
      ⟨[⟨"key", .unresolved "Key", true, false⟩, .required "node" (.unresolved "Node")], .void⟩
    let s : Signature :=
      ⟨[.required "callback" (.function callback), .required "root" (.unresolved "Node")],
        .unresolved "Result"⟩
    let f (name : String) : Ty :=
      if name = "Node" then .declared (.ofGlobal "Node")
      else if name = "Result" then .unresolved "Later"
      else .any
    let t := s.replace f
    ((Ty.function s).replaceM (Ty.noting f)).run []
        = (Ty.function t, ["Key", "Node", "Node", "Result"]) ∧
      t.references = ["Later"] ∧
      t.typeAt? [.param 0] (.param 1) = some (.declared (.ofGlobal "Node")) ∧
      t.typeAt? [.param 0] .result = some .void ∧
      t.flaw? = some (.requiredAfterOptional "node" "key") := by
  intro callback s f t
  have h : s.Replaced f t := (replaced_replace s).1 f
  have hflaw : s.flaw? = some (.requiredAfterOptional "node" "key") := by decide +kernel
  -- each part is a field of `Signature.Replaced`, read at this signature
  exact ⟨h.asked [], h.references, h.names [.param 0] (.param 1) "Node" rfl,
    h.others [.param 0] .result .void rfl rfl, (h.flaw (by decide +kernel)).trans hflaw⟩

end Signature

end Overlay
