/-
The tokens of signatures.

The text of a signature is a row of `Token`s: the words that show types without parts, the names of
parameters, and what stands between them.  Read from its front, the row says what it is a row of,
though nothing but an arrow stands between a parameter list and a result: the first token of a type,
of a parameter and of what comes behind one tells them apart.

Only whether a variadic parameter is optional is not said.  `Signature.settled` is the signature
without that.

* `Ty.spell_tokens` — the tokens of a type make its text;
* `Param.reads`, `Callable.reads_more` — a parameter is known from its tokens, and so are those
  behind the first one;
* `Ty.reads` — so is a type, whatever comes behind it;
* `Signature.settled_eq_of_tokens_eq` — and a signature.
-/
import Overlay.Ty.Text
import Mathlib.Data.List.Induction

namespace Overlay

/-! ### Settled types -/

mutual

/-- The type without the optional flags of its variadic parameters, at every depth. -/
def Ty.settled : Ty → Ty
  | .function ⟨ps, r⟩ => .function ⟨Ty.settledParams ps, r.settled⟩
  | t => t
termination_by structural t => t

/-- Parameters with settled types; the optional flags of variadic ones are dropped. -/
def Ty.settledParams : List (Param Ty) → List (Param Ty)
  | [] => []
  | ⟨name, t, optional, variadic⟩ :: ps =>
    ⟨name, t.settled, optional && !variadic, variadic⟩ :: Ty.settledParams ps
termination_by structural ps => ps

end

def Param.settled (p : Param Ty) : Param Ty :=
  ⟨p.name, p.type.settled, p.optional && !p.variadic, p.variadic⟩

/-- The signature without the optional flags of its variadic parameters, at every depth. -/
def Signature.settled (s : Signature) : Signature :=
  ⟨s.params.map Param.settled, s.result.settled⟩

theorem Ty.settledParams_eq_map (ps : List (Param Ty)) :
    settledParams ps = ps.map Param.settled := by
  induction ps with
  | nil => rfl
  | cons p ps ih => rw [settledParams, ih]; rfl

theorem Ty.settled_function (s : Signature) : (function s).settled = function s.settled := by
  rw [settled, settledParams_eq_map]
  rfl

/-! ### Tokens -/

inductive Mark where
  | opening
  | comma
  | arrow
  | dots
  | brackets

def Mark.text : Mark → String
  | opening => "("
  | comma => ", "
  | arrow => ") => "
  | dots => "..."
  | brackets => "[]"

/-- A piece of the text of a signature. -/
inductive Token where
  /-- A type that is shown by a word. -/
  | word (t : Ty)
  /-- The name of a parameter, and whether it is shown as optional. -/
  | name (text : String) (optional : Bool)
  | mark (m : Mark)

def Token.chars : Token → List Char
  | word t => t.text.toList
  | name text optional => text.toList ++ (if optional then "?: " else ": ").toList
  | mark m => m.text.toList

/-- The text of a row of tokens. -/
def Token.spell (ts : List Token) : List Char :=
  ts.flatMap Token.chars

/-- The tokens of a parameter, those of its type being given. -/
def Param.tokensOf (p : Param (List Token)) : List Token :=
  if p.variadic then .mark .dots :: .name p.name false :: (p.type ++ [.mark .brackets])
  else .name p.name p.optional :: p.type

/-- The tokens of a signature, those of its parts being given. -/
def Callable.tokensOf (params : List (List Token)) (result : List Token) : List Token :=
  .mark .opening :: ([.mark .comma].intercalate params ++ .mark .arrow :: result)

mutual

def Ty.tokens : Ty → List Token
  | .function ⟨ps, r⟩ =>
    if (⟨ps, r⟩ : Signature) = Signature.untyped then [.word (.function ⟨ps, r⟩)]
    else Callable.tokensOf (Ty.paramTokens ps) r.tokens
  | t => [.word t]
termination_by structural t => t

def Ty.paramTokens : List (Param Ty) → List (List Token)
  | [] => []
  | ⟨name, t, optional, variadic⟩ :: ps =>
    Param.tokensOf ⟨name, t.tokens, optional, variadic⟩ :: Ty.paramTokens ps
termination_by structural ps => ps

end

def Param.tokens (p : Param Ty) : List Token :=
  Param.tokensOf ⟨p.name, p.type.tokens, p.optional, p.variadic⟩

def Signature.tokens (s : Signature) : List Token :=
  Callable.tokensOf (s.params.map Param.tokens) s.result.tokens

theorem Ty.paramTokens_eq_map (ps : List (Param Ty)) : paramTokens ps = ps.map Param.tokens := by
  induction ps with
  | nil => rfl
  | cons p ps ih => rw [paramTokens, ih]; rfl

theorem Ty.tokens_function (s : Signature) : (function s).tokens
    = if s = Signature.untyped then [.word (function s)] else s.tokens := by
  rw [tokens, paramTokens_eq_map]
  rfl

/-- A type is one word, unless it is a function of known signature. -/
theorem Ty.tokens_eq (t : Ty) :
    t.tokens = [.word t]
      ∨ ∃ s : Signature, t = .function s ∧ s ≠ Signature.untyped ∧ t.tokens = s.tokens := by
  cases t with
  | function s =>
    rw [tokens_function]
    by_cases h : s = Signature.untyped
    · exact .inl (if_pos h)
    · exact .inr ⟨s, rfl, h, if_neg h⟩
  | _ => exact .inl rfl

/-! ### Tokens as text -/

/-- A list between whose elements a separator stands: the first one, then each with the separator
before it. -/
theorem intercalate_cons {α : Type} (sep as : List α) (ass : List (List α)) :
    sep.intercalate (as :: ass) = as ++ ass.flatMap (sep ++ ·) := by
  induction ass generalizing as with
  | nil => simp [List.intercalate]
  | cons bs ass ih => rw [List.intercalate_cons_cons, ih, List.flatMap_cons, List.append_assoc,
      List.append_assoc]

namespace Token

@[simp] theorem spell_nil : spell [] = [] := rfl

@[simp] theorem spell_cons (a : Token) (ts : List Token) : spell (a :: ts) = a.chars ++ spell ts :=
  rfl

@[simp] theorem spell_append (ts us : List Token) : spell (ts ++ us) = spell ts ++ spell us :=
  List.flatMap_append

theorem spell_intercalate (m : Mark) (tss : List (List Token)) :
    spell ([mark m].intercalate tss) = m.text.toList.intercalate (tss.map spell) := by
  cases tss with
  | nil => rfl
  | cons ts tss =>
    rw [intercalate_cons, spell_append, List.map_cons, intercalate_cons, List.flatMap_map]
    congr 1
    induction tss with
    | nil => rfl
    | cons us tss ih => rw [List.flatMap_cons, List.flatMap_cons, spell_append, ih]; rfl

end Token

/-- A parameter is spelled as it is shown, if its type is. -/
theorem Param.spell_tokens {p : Param Ty} (h : Token.spell p.type.tokens = p.type.text.toList) :
    Token.spell p.tokens = p.text.toList := by
  rw [tokens, tokensOf, text, withType]
  cases p.variadic <;> cases p.optional <;> simp [h, Token.chars, Mark.text]

theorem Signature.spell_tokens_of {s : Signature}
    (params : ∀ p ∈ s.params, Token.spell p.type.tokens = p.type.text.toList)
    (result : Token.spell s.result.tokens = s.result.text.toList) :
    Token.spell s.tokens = s.text.toList := by
  have hparams : (s.params.map Param.tokens).map Token.spell
      = (s.params.map Param.text).map String.toList := by
    rw [List.map_map, List.map_map]
    exact List.map_congr_left fun p hp => p.spell_tokens (params p hp)
  rw [tokens, Callable.tokensOf, text, Callable.joined]
  simp [Token.spell_intercalate, hparams, result, Token.chars, Mark.text, String.toList_intercalate]

theorem Ty.spell_tokens (t : Ty) : Token.spell t.tokens = t.text.toList := by
  induction t using Ty.induction with
  | function s params result =>
    rw [tokens_function]
    split
    · exact List.append_nil _
    · rw [text_function, if_neg ‹_›]
      exact Signature.spell_tokens_of params result
  | any | string | void => rfl
  | unresolved name => exact List.append_nil _
  | declared key => exact List.append_nil _

theorem Signature.spell_tokens (s : Signature) : Token.spell s.tokens = s.text.toList :=
  spell_tokens_of (fun p _ => p.type.spell_tokens) s.result.spell_tokens

/-! ### Tokens from the front -/

/-- A type is known but for flags that are not shown, and what comes behind it is known, from a
row of tokens that begins with it. -/
def Ty.Reads (t : Ty) : Prop :=
  ∀ (t' : Ty) (rest rest' : List Token), t.tokens ++ rest = t'.tokens ++ rest' →
    t.settled = t'.settled ∧ rest = rest'

theorem Param.reads {p q : Param Ty} (hp : p.type.Reads) {rest rest' : List Token}
    (h : p.tokens ++ rest = q.tokens ++ rest') : p.settled = q.settled ∧ rest = rest' := by
  obtain ⟨name, t, optional, variadic⟩ := p
  obtain ⟨name', t', optional', variadic'⟩ := q
  cases variadic <;> cases variadic' <;>
    simp only [tokens, tokensOf, Bool.false_eq_true, if_false, if_true, List.cons_append,
      List.append_assoc, List.cons.injEq, Token.name.injEq, reduceCtorEq, false_and] at h
  · obtain ⟨⟨rfl, rfl⟩, h⟩ := h
    obtain ⟨htype, rfl⟩ := hp t' _ _ h
    exact ⟨by simp only [settled, htype], rfl⟩
  · obtain ⟨-, ⟨rfl, -⟩, h⟩ := h
    obtain ⟨htype, hrest⟩ := hp t' _ _ h
    exact ⟨by simp only [settled, htype, Bool.not_true, Bool.and_false], by simpa using hrest⟩

/-- The same for the parameters behind the first one, up to the arrow. -/
theorem Callable.reads_more {ps : List (Param Ty)} (hps : ∀ p ∈ ps, p.type.Reads) :
    ∀ {qs : List (Param Ty)} {rest rest' : List Token},
      (ps.map Param.tokens).flatMap ([.mark .comma] ++ ·) ++ .mark .arrow :: rest
        = (qs.map Param.tokens).flatMap ([.mark .comma] ++ ·) ++ .mark .arrow :: rest' →
      ps.map Param.settled = qs.map Param.settled ∧ rest = rest' := by
  induction ps with
  | nil =>
    intro qs rest rest' h
    cases qs with
    | nil => exact ⟨rfl, (List.cons.inj h).2⟩
    | cons q qs => simp at h
  | cons p ps ih =>
    intro qs rest rest' h
    cases qs with
    -- a comma is no arrow
    | nil => simp at h
    | cons q qs =>
      simp only [List.map_cons, List.flatMap_cons, List.append_assoc, List.append_cancel_left_eq]
        at h
      obtain ⟨hp, hmore⟩ := Param.reads (hps p (.head _)) h
      obtain ⟨hps, hrest⟩ := ih (fun p' hp' => hps p' (.tail _ hp')) hmore
      exact ⟨by rw [List.map_cons, List.map_cons, hp, hps], hrest⟩

/-- A parameter does not begin with an arrow. -/
theorem Param.tokens_append_ne_arrow (p : Param Ty) (rest rest' : List Token) :
    p.tokens ++ rest ≠ .mark .arrow :: rest' := by
  rw [tokens, tokensOf]
  cases p.variadic <;> simp

theorem Signature.reads_of {s : Signature} (params : ∀ p ∈ s.params, p.type.Reads)
    (result : s.result.Reads) {s' : Signature} {rest rest' : List Token}
    (h : s.tokens ++ rest = s'.tokens ++ rest') : s.settled = s'.settled ∧ rest = rest' := by
  obtain ⟨ps, r⟩ := s
  obtain ⟨qs, r'⟩ := s'
  simp only [tokens, Callable.tokensOf, List.cons_append, List.append_assoc, List.cons.injEq,
    true_and] at h
  -- up to the arrow, the parameters; a list ends where the other one does
  have hparts : ps.map Param.settled = qs.map Param.settled
      ∧ r.tokens ++ rest = r'.tokens ++ rest' := by
    cases ps with
    | nil =>
      cases qs with
      | nil => exact ⟨rfl, (List.cons.inj h).2⟩
      | cons q qs =>
        rw [List.map_cons, intercalate_cons, List.append_assoc] at h
        exact absurd h.symm (q.tokens_append_ne_arrow _ _)
    | cons p ps =>
      cases qs with
      | nil =>
        rw [List.map_cons, intercalate_cons, List.append_assoc] at h
        exact absurd h (p.tokens_append_ne_arrow _ _)
      | cons q qs =>
        rw [List.map_cons, List.map_cons, intercalate_cons, intercalate_cons, List.append_assoc,
          List.append_assoc] at h
        -- the first parameter, then the others, each behind its comma
        obtain ⟨hp, hmore⟩ := Param.reads (params p (.head _)) h
        obtain ⟨hps, hrest⟩ :=
          Callable.reads_more (fun p' hp' => params p' (.tail _ hp')) hmore
        exact ⟨by rw [List.map_cons, List.map_cons, hp, hps], hrest⟩
  obtain ⟨hr, hrest⟩ := result r' _ _ hparts.2
  exact ⟨by rw [settled, settled, hparts.1, hr], hrest⟩

/-- A word is read as the type that it shows. -/
theorem Ty.reads_of_word {t : Ty} (ht : t.tokens = [.word t]) : t.Reads := by
  intro t' rest rest' h
  rw [ht] at h
  rcases t'.tokens_eq with ht' | ⟨s, -, -, hs⟩
  · rw [ht'] at h
    obtain ⟨hword, hrest⟩ := List.cons.inj h
    exact ⟨congrArg settled (Token.word.inj hword), hrest⟩
  · rw [hs] at h
    exact absurd (List.cons.inj h).1 nofun

theorem Ty.reads (t : Ty) : t.Reads := by
  induction t using Ty.induction with
  | function s params result =>
    rcases tokens_eq (function s) with hword | ⟨_, ⟨rfl⟩, -, hs⟩
    · exact reads_of_word hword
    · intro t' rest rest' h
      rw [hs] at h
      rcases t'.tokens_eq with ht' | ⟨s', rfl, -, hs'⟩
      · rw [ht'] at h
        exact absurd (List.cons.inj h).1 nofun
      · rw [hs'] at h
        obtain ⟨hsettled, hrest⟩ := Signature.reads_of params result h
        exact ⟨by rw [settled_function, settled_function, hsettled], hrest⟩
  | any | string | void => exact reads_of_word rfl
  | unresolved name => exact reads_of_word rfl
  | declared key => exact reads_of_word rfl

theorem Signature.settled_eq_of_tokens_eq {s s' : Signature} (h : s.tokens = s'.tokens) :
    s.settled = s'.settled := by
  have htokens : s.tokens ++ [] = s'.tokens ++ [] := by rw [h]
  exact (reads_of (fun p _ => p.type.reads) s.result.reads htokens).1

end Overlay
