/-
Signatures read back from their texts.

A type can be shown by a word behind the name of a module, and that name can be any text at all, so
that where it begins cannot be told from the front.  A text is therefore taken apart from its end.
The last two characters tell of what kind the last token is; and if it is a word or a name, it is
an identifier, and goes on to the left for as long as there are characters of identifiers.

* `append_inj_of_getLast?` — the end of a text that is as long as it can be;
* `append_cons_inj_of_last` — what is behind the last place of a character;
* `Token.append_inj` — the last token of a text;
* `Token.Row.eq_of_spell_eq` — so a row of tokens is known from its text;
* `Signature.settled_eq_of_text_eq` — and so is a signature, but for flags that are not shown.
-/
import Overlay.Proofs.Ty.Tokens

namespace Overlay

/-! ### Identifiers -/

/-- A letter, a digit, `_` or `$`; beyond ASCII every character is let through as a letter. -/
def isIdentifierChar (c : Char) : Bool :=
  c.isAlphanum || c == '_' || c == '$' || decide (128 ≤ c.toNat)

def IsIdentifier (name : String) : Prop :=
  name ≠ "" ∧ name.toList.all isIdentifierChar = true

instance (name : String) : Decidable (IsIdentifier name) :=
  inferInstanceAs (Decidable (_ ∧ _))

theorem IsIdentifier.chars {name : String} (h : IsIdentifier name) :
    ∀ c ∈ name.toList, isIdentifierChar c = true :=
  List.all_eq_true.mp h.2

/-! ### Ends of lists -/

/-- A list is taken apart where its end begins, if the end has a property that what is before it
lacks. -/
theorem append_inj_of_getLast? {α : Type} {p : α → Prop} {as as' bs bs' : List α}
    (hbs : ∀ b ∈ bs, p b) (hbs' : ∀ b ∈ bs', p b) (has : ∀ a ∈ as.getLast?, ¬ p a)
    (has' : ∀ a ∈ as'.getLast?, ¬ p a) (h : as ++ bs = as' ++ bs') : as = as' ∧ bs = bs' := by
  -- what one end has more than the other is the end of what is before the other
  have hnil : ∀ {as cs ds : List α}, (∀ b ∈ cs ++ ds, p b) → (∀ a ∈ (as ++ cs).getLast?, ¬ p a) →
      cs = [] := by
    intro as cs ds hds has
    by_contra hcs
    obtain ⟨c, hc⟩ := Option.ne_none_iff_exists'.mp (mt List.getLast?_eq_none_iff.mp hcs)
    refine has c ?_ (hds c (List.mem_append_left _ (List.mem_of_getLast? hc)))
    rw [List.getLast?_append, hc]
    rfl
  rcases List.append_eq_append_iff.mp h with ⟨cs, rfl, rfl⟩ | ⟨cs, rfl, rfl⟩
  · obtain rfl := hnil hbs has'
    exact ⟨(List.append_nil _).symm, List.nil_append _⟩
  · obtain rfl := hnil hbs' has
    exact ⟨List.append_nil _, (List.nil_append _).symm⟩

/-- A list is taken apart at the last place of an element. -/
theorem append_cons_inj_of_last {α : Type} {c : α} {as as' bs bs' : List α} (hbs : c ∉ bs)
    (hbs' : c ∉ bs') (h : as ++ c :: bs = as' ++ c :: bs') : as = as' ∧ bs = bs' := by
  have hfree : ∀ {bs : List α}, c ∉ bs → ∀ b ∈ bs, b ≠ c := by
    rintro bs hbs b hb rfl
    exact hbs hb
  have hends : ∀ as : List α, ∀ a ∈ (as ++ [c]).getLast?, ¬ a ≠ c := by
    intro as a ha
    rw [List.getLast?_concat] at ha
    exact not_not_intro (Option.some.inj ha).symm
  rw [List.append_cons as, List.append_cons as'] at h
  obtain ⟨has, hbs⟩ := append_inj_of_getLast? (hfree hbs) (hfree hbs') (hends as) (hends as') h
  exact ⟨List.append_cancel_right has, hbs⟩

/-- A list is taken apart at the first place of an element. -/
theorem append_cons_inj_of_first {α : Type} {c : α} {as as' bs bs' : List α} (has : c ∉ as)
    (has' : c ∉ as') (h : as ++ c :: bs = as' ++ c :: bs') : as = as' ∧ bs = bs' := by
  have hreverse : bs.reverse ++ c :: as.reverse = bs'.reverse ++ c :: as'.reverse := by
    simpa using congrArg List.reverse h
  obtain ⟨hbs, has⟩ := append_cons_inj_of_last (mt List.mem_reverse.mp has)
    (mt List.mem_reverse.mp has') hreverse
  exact ⟨List.reverse_inj.mp has, List.reverse_inj.mp hbs⟩

/-! ### Words -/

namespace Ty

/-- The name by which a type without parts is shown. -/
def word : Ty → String
  | any => "any"
  | string => "string"
  | void => "void"
  | function _ => "Function"
  | unresolved name => name
  | declared key => key.name

/-- What stands before the name: the module of the declaration, if it has one. -/
def stem : Ty → String
  | declared ⟨.ambient name, _⟩ => "\"" ++ name ++ "\"."
  | _ => ""

theorem toList_stem_ambient (home name : String) :
    (declared ⟨.ambient home, name⟩).stem.toList = ('"' :: home.toList ++ ['"']) ++ ['.'] := by
  simp [stem]

/-- What stands before the name does not end like a part of it. -/
theorem getLast?_stem (t : Ty) {A : List Char} (hA : ∀ c ∈ A.getLast?, c = ' ') :
    ∀ c ∈ (A ++ t.stem.toList).getLast?, ¬ isIdentifierChar c = true := by
  have hblank : ∀ c ∈ A.getLast?, ¬ isIdentifierChar c = true := by
    intro c hc
    rw [hA c hc]
    decide
  cases t with
  | declared key =>
    obtain ⟨_ | name, name'⟩ := key
    · simpa [stem] using hblank
    · rw [toList_stem_ambient, ← List.append_assoc, List.getLast?_append]
      rintro c ⟨⟩
      decide
  | _ => simpa [stem] using hblank

/-- The types that have words of their own. -/
def worded : List Ty :=
  [any, string, void, function Signature.untyped]

/-- Types that are shown by names.  If their texts are the same at the end of some text, behind a
blank, then so are they. -/
structure Naming (N : Ty → Prop) : Prop where
  isIdentifier : ∀ t, N t → IsIdentifier t.word
  notWorded : ∀ t, N t → t.word ∉ worded.map word
  notFunction : ∀ t, N t → ∀ s, t ≠ function s
  clear : ∀ t t', N t → N t' → t.word = t'.word → ∀ A A' : List Char,
    (∀ c ∈ A.getLast?, c = ' ') → (∀ c ∈ A'.getLast?, c = ' ') →
      A ++ t.stem.toList = A' ++ t'.stem.toList → t = t'

/-- A type that is shown by a word. -/
def IsWord (N : Ty → Prop) (t : Ty) : Prop :=
  t ∈ worded ∨ N t

/-- A type in which all parameters have identifiers for names and all types without parts are shown
by words. -/
inductive Legible (N : Ty → Prop) : Ty → Prop
  | word {t : Ty} (h : t.IsWord N) : Legible N t
  | function {s : Signature} (names : ∀ p ∈ s.params, IsIdentifier p.name)
    (params : ∀ p ∈ s.params, Legible N p.type) (result : Legible N s.result) :
    Legible N (.function s)

end Ty

/-- A signature in which all parameters have identifiers for names and all types without parts are
shown by words. -/
structure Signature.Legible (N : Ty → Prop) (s : Signature) : Prop where
  names : ∀ p ∈ s.params, IsIdentifier p.name
  params : ∀ p ∈ s.params, p.type.Legible N
  result : s.result.Legible N

namespace Ty.IsWord

variable {N : Ty → Prop} {t t' : Ty}

theorem text_eq (hN : Naming N) (h : t.IsWord N) : t.text = t.stem ++ t.word := by
  rcases h with h | h
  · revert t
    decide
  · cases t with
    | function s => exact absurd rfl (hN.notFunction _ h s)
    | declared key =>
      obtain ⟨_ | name, name'⟩ := key
      · rfl
      · simp [text, Key.text, stem, word, String.append_assoc]
    | _ => rfl

theorem isIdentifier (hN : Naming N) (h : t.IsWord N) : IsIdentifier t.word := by
  rcases h with h | h
  · revert t
    decide
  · exact hN.isIdentifier t h

theorem tokens_eq (hN : Naming N) (h : t.IsWord N) : t.tokens = [.word t] := by
  rcases t.tokens_eq with ht | ⟨s, rfl, hs, -⟩
  · exact ht
  · rcases h with h | h
    · simp [worded, hs] at h
    · exact absurd rfl (hN.notFunction _ h s)

theorem clear (hN : Naming N) (h : t.IsWord N) (h' : t'.IsWord N) (hword : t.word = t'.word)
    {A A' : List Char} (hA : ∀ c ∈ A.getLast?, c = ' ') (hA' : ∀ c ∈ A'.getLast?, c = ' ')
    (htext : A ++ t.stem.toList = A' ++ t'.stem.toList) : t = t' := by
  have hinj : ∀ t ∈ worded, ∀ t' ∈ worded, t.word = t'.word → t = t' := by decide
  rcases h with h | h <;> rcases h' with h' | h'
  · exact hinj t h t' h' hword
  · exact absurd (hword ▸ List.mem_map_of_mem h) (hN.notWorded t' h')
  · exact absurd (hword ▸ List.mem_map_of_mem h') (hN.notWorded t h)
  · exact hN.clear t t' h h' hword A A' hA hA' htext

end Ty.IsWord

/-! ### Tokens from the end -/

/-- The last character of a mark. -/
def Mark.last : Mark → Char
  | opening => '('
  | comma | arrow => ' '
  | dots => '.'
  | brackets => ']'

namespace Token

/-- What kind of token a text ends with. -/
inductive Kind where
  | word
  | name
  | mark (m : Mark)

/-- The kind of the last token, from the characters of a text in reverse. -/
def Kind.ofReversed : List Char → Kind
  | '(' :: _ => mark .opening
  | ' ' :: ',' :: _ => mark .comma
  | ' ' :: '>' :: _ => mark .arrow
  | '.' :: _ => mark .dots
  | ']' :: _ => mark .brackets
  | ' ' :: ':' :: _ => name
  | _ => word

def kind : Token → Kind
  | word _ => .word
  | name _ _ => .name
  | mark m => .mark m

/-- A token that can stand behind a text: a word behind a blank, a name behind what belongs to no
identifier. -/
def Follows (N : Ty → Prop) (A : List Char) : Token → Prop
  | word t => t.IsWord N ∧ ∀ c ∈ A.getLast?, c = ' '
  | name text _ => IsIdentifier text ∧ ∀ c ∈ A.getLast?, ¬ isIdentifierChar c = true
  | mark _ => True

/-- A row in which each token can stand behind the text of those before it. -/
inductive Row (N : Ty → Prop) : List Token → Prop
  | nil : Row N []
  | concat {ts : List Token} {a : Token} (h : Row N ts) (ha : a.Follows N (spell ts)) :
    Row N (ts ++ [a])

theorem Kind.ofReversed_eq_word {c : Char} (hc : isIdentifierChar c = true) (cs : List Char) :
    ofReversed (c :: cs) = word := by
  have hne : ∀ d, isIdentifierChar d = false → c ≠ d := by
    rintro d hd rfl
    exact Bool.false_ne_true (hd.symm.trans hc)
  simp [ofReversed, hne '(' (by decide), hne ' ' (by decide), hne '.' (by decide),
    hne ']' (by decide)]

theorem exists_concat_of_isIdentifier {text : String} (h : IsIdentifier text) :
    ∃ cs c, text.toList = cs ++ [c] ∧ isIdentifierChar c = true := by
  obtain ⟨cs, c, hc⟩ : ∃ cs c, text.toList = cs ++ [c] := by
    have hne : text.toList ≠ [] := by simpa using h.1
    exact ⟨_, _, (List.dropLast_concat_getLast hne).symm⟩
  exact ⟨cs, c, hc, h.chars c (by simp [hc])⟩

/-- The kind of the last token is seen at the end of a text. -/
theorem ofReversed_reverse_append {N : Ty → Prop} (hN : Ty.Naming N) {A : List Char} {a : Token}
    (ha : a.Follows N A) : Kind.ofReversed (A ++ a.chars).reverse = a.kind := by
  cases a with
  | word t =>
    obtain ⟨cs, c, hcs, hc⟩ := exists_concat_of_isIdentifier (ha.1.isIdentifier hN)
    rw [chars, ha.1.text_eq hN, String.toList_append, hcs, ← List.append_assoc, ← List.append_assoc,
      List.reverse_concat]
    exact Kind.ofReversed_eq_word hc _
  | name text optional =>
    rw [chars, List.reverse_append, List.reverse_append]
    cases optional <;> rfl
  | mark m =>
    rw [chars, List.reverse_append]
    cases m <;> rfl

/-- The name of a parameter is known from the text that ends with it, and so is whether it is shown
as optional. -/
theorem append_name_inj {A A' : List Char} {text text' : String} {optional optional' : Bool}
    (htext : IsIdentifier text) (htext' : IsIdentifier text')
    (hA : ∀ c ∈ A.getLast?, ¬ isIdentifierChar c = true)
    (hA' : ∀ c ∈ A'.getLast?, ¬ isIdentifierChar c = true)
    (h : A ++ (name text optional).chars = A' ++ (name text' optional').chars) :
    A = A' ∧ text = text' ∧ optional = optional' := by
  -- the question mark belongs to no identifier
  have hmark : ∀ {A A' : List Char} {text : String}, IsIdentifier text →
      A ++ text.toList ++ [':', ' '] ≠ A' ++ ['?'] ++ [':', ' '] := by
    intro A A' text htext h
    obtain ⟨cs, c, hcs, hc⟩ := exists_concat_of_isIdentifier htext
    rw [hcs, ← List.append_assoc] at h
    obtain ⟨-, hc'⟩ := List.append_inj' (List.append_cancel_right h) rfl
    rw [List.singleton_inj.mp hc'] at hc
    exact absurd hc (by decide)
  -- with the same ending, the names are the longest identifiers before it
  have hsame : ∀ ending : List Char, A ++ text.toList ++ ending = A' ++ text'.toList ++ ending →
      A = A' ∧ text = text' := fun ending h =>
    (append_inj_of_getLast? htext.chars htext'.chars hA hA' (List.append_cancel_right h)).imp_right
      String.toList_inj.mp
  simp only [chars, ← List.append_assoc] at h
  cases optional <;> cases optional'
  · exact (hsame _ h).imp_right fun heq => ⟨heq, rfl⟩
  · exact absurd (h.trans (List.append_assoc (A' ++ text'.toList) ['?'] [':', ' ']).symm)
      (hmark htext)
  · exact absurd (h.symm.trans (List.append_assoc (A ++ text.toList) ['?'] [':', ' ']).symm)
      (hmark htext')
  · exact (hsame _ h).imp_right fun heq => ⟨heq, rfl⟩

/-- A text is taken apart before its last token. -/
theorem append_inj {N : Ty → Prop} (hN : Ty.Naming N) {A A' : List Char} {a a' : Token}
    (ha : a.Follows N A) (ha' : a'.Follows N A') (h : A ++ a.chars = A' ++ a'.chars) :
    A = A' ∧ a = a' := by
  -- the last characters tell the kind of the last token
  have hkind : a.kind = a'.kind := by
    rw [← ofReversed_reverse_append hN ha, h, ofReversed_reverse_append hN ha']
  cases a <;> cases a' <;> simp only [kind, reduceCtorEq, Kind.mark.injEq] at hkind
  case word.word t t' =>
    rw [chars, chars, ha.1.text_eq hN, ha'.1.text_eq hN, String.toList_append, String.toList_append,
      ← List.append_assoc, ← List.append_assoc] at h
    -- the word is what is identifier to the last; in front of it stands its module
    obtain ⟨hstem, hword⟩ := append_inj_of_getLast? (ha.1.isIdentifier hN).chars
      (ha'.1.isIdentifier hN).chars (t.getLast?_stem ha.2) (t'.getLast?_stem ha'.2) h
    obtain rfl := ha.1.clear hN ha'.1 (String.toList_inj.mp hword) ha.2 ha'.2 hstem
    exact ⟨List.append_cancel_right hstem, rfl⟩
  case name.name text optional text' optional' =>
    obtain ⟨hA, rfl, rfl⟩ := append_name_inj ha.1 ha'.1 ha.2 ha'.2 h
    exact ⟨hA, rfl⟩
  case mark.mark m m' =>
    obtain rfl := hkind
    exact ⟨List.append_cancel_right h, rfl⟩

theorem chars_ne_nil {N : Ty → Prop} (hN : Ty.Naming N) {A : List Char} {a : Token}
    (ha : a.Follows N A) : a.chars ≠ [] := by
  cases a with
  | word t =>
    have hword := (ha.1.isIdentifier hN).1
    rw [chars, ha.1.text_eq hN]
    simp [hword]
  | name text optional => simp [chars, ha.1.1]
  | mark m => cases m <;> simp [chars, Mark.text]

/-- A row of tokens is known from its text. -/
theorem Row.eq_of_spell_eq {N : Ty → Prop} (hN : Ty.Naming N) {ts ts' : List Token}
    (h : Row N ts) (h' : Row N ts') (hspell : spell ts = spell ts') : ts = ts' := by
  -- no token is spelled by nothing, so that rows have the same length
  have hne : ∀ {ts : List Token} {a : Token}, a.Follows N (spell ts) → spell (ts ++ [a]) ≠ [] := by
    intro ts a ha
    simp [chars_ne_nil hN ha]
  induction h generalizing ts' with
  | nil =>
    cases h' with
    | nil => rfl
    | concat _ ha' => exact absurd hspell.symm (hne ha')
  | concat h ha ih =>
    cases h' with
    | nil => exact absurd hspell (hne ha)
    | concat h' ha' =>
      simp only [spell_append, spell_cons, spell_nil, List.append_nil] at hspell
      obtain ⟨hbefore, rfl⟩ := append_inj hN ha ha' hspell
      rw [ih h' hbefore]

/-! ### Rows of types -/

theorem getLast?_spell_mark (ts : List Token) (m : Mark) :
    (spell (ts ++ [.mark m])).getLast? = some m.last := by
  rw [spell_append, List.getLast?_append]
  cases m <;> rfl

theorem last_of_mem_spell_mark {ts : List Token} {m : Mark} {c : Char}
    (hc : c ∈ (spell (ts ++ [.mark m])).getLast?) : m.last = c :=
  Option.some.inj ((getLast?_spell_mark ts m).symm.trans hc)

theorem getLast?_spell_name (ts : List Token) (text : String) (optional : Bool) :
    (spell (ts ++ [.name text optional])).getLast? = some ' ' := by
  rw [spell_append, List.getLast?_append]
  cases optional <;> simp [chars]

/-- These tokens can stand behind a row that ends with a blank, or behind nothing. -/
def Joins (N : Ty → Prop) (us : List Token) : Prop :=
  ∀ ts, Row N ts → (∀ c ∈ (spell ts).getLast?, c = ' ') → Row N (ts ++ us)

end Token

section

open Token

variable {N : Ty → Prop}

/-- A parameter can stand behind a row that does not end with an identifier. -/
theorem Param.row_tokens {p : Param Ty} (hname : IsIdentifier p.name)
    (htype : Joins N p.type.tokens) {ts : List Token} (h : Row N ts)
    (hts : ∀ c ∈ (spell ts).getLast?, ¬ isIdentifierChar c = true) : Row N (ts ++ p.tokens) := by
  -- a name ends in a blank, behind which a type can start
  have hblank : ∀ (ts : List Token) (text : String) (optional : Bool),
      ∀ c ∈ (spell (ts ++ [.name text optional])).getLast?, c = ' ' := by
    intro ts text optional c hc
    rw [getLast?_spell_name] at hc
    exact (Option.some.inj hc).symm
  rw [tokens, tokensOf]
  split
  · have hdots : Row N (ts ++ [.mark .dots]) := h.concat trivial
    have hcolon : Row N (ts ++ [.mark .dots] ++ [.name p.name false]) :=
      hdots.concat ⟨hname, fun c hc => last_of_mem_spell_mark hc ▸ by decide⟩
    have htokens := (htype _ hcolon (hblank _ _ _)).concat (a := .mark .brackets) trivial
    simpa using htokens
  · have hcolon : Row N (ts ++ [.name p.name p.optional]) := h.concat ⟨hname, hts⟩
    have htokens := htype _ hcolon (hblank _ _ _)
    simpa using htokens

/-- The same for the parameters behind the first one. -/
theorem Callable.row_more {ps : List (Param Ty)}
    (hnames : ∀ p ∈ ps, IsIdentifier p.name) (htypes : ∀ p ∈ ps, Joins N p.type.tokens)
    {ts : List Token} (h : Row N ts) :
    Row N (ts ++ (ps.map Param.tokens).flatMap ([.mark .comma] ++ ·)) := by
  induction ps generalizing ts with
  | nil => simpa using h
  | cons p ps ih =>
    have hcomma : Row N (ts ++ [.mark .comma]) := h.concat trivial
    have hp := Param.row_tokens (hnames p (.head _)) (htypes p (.head _)) hcomma
      (fun c hc => last_of_mem_spell_mark hc ▸ by decide)
    have hmore := ih (fun p' hp' => hnames p' (.tail _ hp'))
      (fun p' hp' => htypes p' (.tail _ hp')) hp
    simpa using hmore

theorem Signature.joins_tokens_of {s : Signature}
    (names : ∀ p ∈ s.params, IsIdentifier p.name) (params : ∀ p ∈ s.params, Joins N p.type.tokens)
    (result : Joins N s.result.tokens) : Joins N s.tokens := by
  intro ts h _
  have hopening : Row N (ts ++ [.mark .opening]) := h.concat trivial
  -- the parameters between the brackets, the first one without a comma before it
  have hparams : Row N (ts ++ [.mark .opening]
      ++ [.mark .comma].intercalate (s.params.map Param.tokens)) := by
    cases hps : s.params with
    | nil => simpa using hopening
    | cons p ps =>
      rw [hps] at names params
      have hp := Param.row_tokens (names p (.head _)) (params p (.head _)) hopening
        (fun c hc => last_of_mem_spell_mark hc ▸ by decide)
      have hmore := Callable.row_more (fun p' hp' => names p' (.tail _ hp'))
        (fun p' hp' => params p' (.tail _ hp')) hp
      rw [List.map_cons, intercalate_cons]
      simpa using hmore
  have harrow := hparams.concat (a := .mark .arrow) trivial
  have htokens := result _ harrow (fun c hc => last_of_mem_spell_mark hc ▸ by decide)
  rw [tokens, Callable.tokensOf]
  simpa using htokens

theorem Ty.joins_tokens (hN : Naming N) {t : Ty} (h : t.Legible N) :
    Joins N t.tokens := by
  have hword : ∀ {t : Ty}, t.IsWord N → Joins N t.tokens := by
    intro t ht ts hts hblank
    rw [ht.tokens_eq hN]
    exact hts.concat ⟨ht, hblank⟩
  induction h with
  | word h => exact hword h
  | @function s names _ _ params result =>
    rw [tokens_function]
    split
    · have huntyped := hword (.inl (by simp [worded, ‹s = Signature.untyped›]) :
        (function s).IsWord N)
      rwa [tokens_function, if_pos ‹_›] at huntyped
    · exact Signature.joins_tokens_of names params result

theorem Signature.row_tokens (hN : Ty.Naming N) {s : Signature} (h : s.Legible N) :
    Row N s.tokens :=
  joins_tokens_of h.names (fun p hp => Ty.joins_tokens hN (h.params p hp))
    (Ty.joins_tokens hN h.result) [] .nil nofun

/-- A signature whose text can be read is known from it, but for the optional flags of variadic
parameters. -/
theorem Signature.settled_eq_of_text_eq (hN : Ty.Naming N) {s s' : Signature} (hs : s.Legible N)
    (hs' : s'.Legible N) (h : s.text = s'.text) : s.settled = s'.settled := by
  refine settled_eq_of_tokens_eq ((row_tokens hN hs).eq_of_spell_eq hN (row_tokens hN hs') ?_)
  rw [spell_tokens, spell_tokens, h]

end

end Overlay
