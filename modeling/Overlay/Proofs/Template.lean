/-
Filling templates.

A mark that is to be replaced cannot reach over a character that it does not have.  So a text is
replaced part by part where such a character stands between the parts, as the quotation marks stand
around the places of a template.  Arguments that are filled in one after the other then come out as
if all were filled in at once, unless one of them brings the mark of a later one.

* `Text.replaceAll_append_cons` — a text is replaced in two parts, around such a character;
* `Text.replaceAll_of_not_infix` — a text without the mark stays as it is;
* `Template.replaceAll_filled` — what filling in one more argument does to a template;
* `Template.fill_eq_substitute` — filling one after the other is filling all at once;
* `Diagnostic.message_ofKind` — so it is for the messages of all kinds of diagnostics.
-/
import Overlay.Diagnostic.Basic
import Mathlib.Data.List.Infix
import Mathlib.Data.List.TakeWhile

namespace Overlay.Text

variable {old new : List Char}

/-- What reaches over a character has that character. -/
theorem prefix_append_cons_iff {c : Char} (hc : c ∉ old) (A B : List Char) :
    old <+: A ++ c :: B ↔ old <+: A := by
  refine ⟨fun h => ?_, fun h => h.trans (List.prefix_append A _)⟩
  rcases List.prefix_or_prefix_of_prefix h (List.prefix_append A (c :: B)) with hA | ⟨rest, rfl⟩
  · exact hA
  · cases rest with
    | nil => exact (List.append_nil A).symm ▸ List.prefix_rfl
    | cons d rest =>
      obtain ⟨rfl, -⟩ := List.cons_prefix_cons.mp ((List.prefix_append_right_inj A).mp h)
      exact absurd (List.mem_append_right _ (List.mem_cons_self ..)) hc

theorem replaceFrom_append_cons {c : Char} (hc : c ∉ old) (hold : old ≠ []) (A B : List Char) :
    ∀ skip ≤ A.length, replaceFrom old new skip (A ++ c :: B)
      = replaceFrom old new skip A ++ c :: replaceFrom old new 0 B := by
  induction A with
  | nil =>
    intro skip hskip
    -- the text to be replaced does not start with `c`
    have hmiss : old.isPrefixOf (c :: B) = false := by
      rw [Bool.eq_false_iff, ne_eq, List.isPrefixOf_iff_prefix]
      exact fun h => hold (List.prefix_nil.mp ((prefix_append_cons_iff hc [] B).mp h))
    obtain rfl := Nat.le_zero.mp hskip
    simp [replaceFrom, hmiss]
  | cons a A ih =>
    intro skip hskip
    cases skip with
    | succ skip =>
      rw [List.cons_append, replaceFrom, replaceFrom]
      exact ih skip (Nat.le_of_succ_le_succ hskip)
    | zero =>
      -- and where it starts earlier, it ends before `c`
      have hfound : old.isPrefixOf (a :: A ++ c :: B) = old.isPrefixOf (a :: A) := by
        rw [Bool.eq_iff_iff, List.isPrefixOf_iff_prefix, List.isPrefixOf_iff_prefix]
        exact prefix_append_cons_iff hc (a :: A) B
      rw [List.cons_append, replaceFrom, replaceFrom, ← List.cons_append, hfound]
      split
      · have hlength := (List.isPrefixOf_iff_prefix.mp ‹_›).length_le
        rw [ih _ (Nat.sub_le_of_le_add hlength), List.append_assoc]
      · rw [ih 0 (Nat.zero_le _), List.cons_append]

/-- A text is replaced part by part around a character that the mark does not have. -/
theorem replaceAll_append_cons {c : Char} (hc : c ∉ old) (hold : old ≠ []) (A B : List Char) :
    replaceAll old new (A ++ c :: B) = replaceAll old new A ++ c :: replaceAll old new B :=
  replaceFrom_append_cons hc hold A B 0 (Nat.zero_le _)

/-- A text is replaced in two parts, where the second begins with such a character or is empty. -/
theorem replaceAll_append {A B : List Char} (hold : old ≠ []) (hB : ∀ c ∈ B.head?, c ∉ old) :
    replaceAll old new (A ++ B) = replaceAll old new A ++ replaceAll old new B := by
  cases B with
  | nil => rw [List.append_nil, replaceAll, replaceAll, replaceFrom, List.append_nil]
  | cons c B =>
    have hc : c ∉ old := hB c rfl
    have hfirst : replaceAll old new (c :: B) = c :: replaceAll old new B :=
      replaceAll_append_cons hc hold [] B
    rw [replaceAll_append_cons hc hold, hfirst]

/-- A text without the mark stays as it is. -/
theorem replaceAll_of_not_infix {text : List Char} (h : ¬ old <:+: text) :
    replaceAll old new text = text := by
  rw [replaceAll]
  induction text with
  | nil => rfl
  | cons c text ih =>
    obtain ⟨hmiss, hrest⟩ := not_or.mp (mt List.infix_cons_iff.mpr h)
    rw [replaceFrom, if_neg (mt List.isPrefixOf_iff_prefix.mp hmiss), ih hrest]

/-- Where the first character of the mark is missing, nothing is replaced. -/
theorem replaceAll_eq_self {c : Char} {text : List Char} (h : c ∉ text) :
    replaceAll (c :: old) new text = text :=
  replaceAll_of_not_infix fun hin => h (hin.subset (List.mem_cons_self ..))

/-- Nor is it in front of other text. -/
theorem replaceAll_append_of_not_mem {c : Char} {A : List Char} (h : c ∉ A) (B : List Char) :
    replaceAll (c :: old) new (A ++ B) = A ++ replaceAll (c :: old) new B := by
  induction A with
  | nil => rfl
  | cons a A ih =>
    obtain ⟨ha, hA⟩ := List.ne_and_not_mem_of_not_mem_cons h
    have hmiss : (c :: old).isPrefixOf (a :: (A ++ B)) = false := by
      simp [List.isPrefixOf, ha]
    rw [List.cons_append, replaceAll, replaceFrom, hmiss, if_neg Bool.false_ne_true,
      ← replaceAll, ih hA, List.cons_append]

/-- What is skipped to its end leaves nothing. -/
theorem replaceFrom_of_length_le {text : List Char} {skip : Nat} (h : text.length ≤ skip) :
    replaceFrom old new skip text = [] := by
  induction text generalizing skip with
  | nil => rw [replaceFrom]
  | cons c text ih =>
    obtain ⟨skip, rfl⟩ := Nat.exists_eq_add_one_of_ne_zero (Nat.ne_zero_of_lt h)
    rw [replaceFrom]
    exact ih (Nat.le_of_succ_le_succ h)

theorem replaceAll_self (h : old ≠ []) : replaceAll old new old = new := by
  obtain ⟨c, rest, rfl⟩ := List.exists_cons_of_ne_nil h
  have hrest : replaceFrom (c :: rest) new rest.length rest = [] :=
    replaceFrom_of_length_le (Nat.le_refl _)
  rw [replaceAll, replaceFrom, if_pos (List.isPrefixOf_iff_prefix.mpr List.prefix_rfl),
    List.length_cons, Nat.add_sub_cancel, hrest, List.append_nil]

end Overlay.Text

namespace Overlay.Template

open Text

/-! ### Filling at once -/

/-- A part with its argument; the place of an argument that is not there keeps its mark. -/
def Part.filled (arguments : List String) : Part → List Char
  | .words s => s.toList
  | .place index => (arguments[index]?.map String.toList).getD (mark index)

def filled (template : Template) (arguments : List String) : List Char :=
  template.flatMap (Part.filled arguments)

/-- A template with arguments in all its places at once. -/
def substitute (template : Template) (arguments : List String) : String :=
  String.ofList (template.filled arguments)

/-- How many arguments a template takes. -/
def arity : Template → Nat
  | [] => 0
  | .words _ :: parts => arity parts
  | .place index :: parts => max (index + 1) (arity parts)

theorem lt_arity_of_mem {template : Template} {index : Nat} (h : .place index ∈ template) :
    index < template.arity := by
  induction template with
  | nil => exact absurd h List.not_mem_nil
  | cons part parts ih =>
    cases part with
    | words s =>
      rcases List.mem_cons.mp h with h | h
      · exact absurd h nofun
      · exact ih h
    | place other =>
      rcases List.mem_cons.mp h with h | h
      · rw [Part.place.inj h]
        exact Nat.le_max_left ..
      · exact (ih h).trans_le (Nat.le_max_right ..)

/-! ### Marks -/

/-- Whether a character is of those that marks are made of. -/
def inMark (c : Char) : Bool :=
  c == '{' || c == '}' || c.isDigit

theorem isDigit_of_mem_toDigits {index : Nat} : ∀ c ∈ Nat.toDigits 10 index, c.isDigit = true :=
  fun _ hc => Nat.isDigit_of_mem_toDigits (by decide) (by decide) hc

theorem inMark_of_mem_mark {c : Char} {index : Nat} (h : c ∈ mark index) : inMark c = true := by
  rcases List.mem_append.mp h with h | h
  · rcases List.mem_cons.mp h with rfl | h
    · rfl
    · rw [inMark, isDigit_of_mem_toDigits c h, Bool.or_true]
  · rw [List.mem_singleton.mp h]
    rfl

theorem mark_ne_nil (index : Nat) : mark index ≠ [] :=
  List.cons_ne_nil _ _

/-- No mark is found in another one. -/
theorem not_infix_mark {index other : Nat} (h : index ≠ other) :
    ¬ mark index <:+: mark other := by
  intro hin
  rcases List.infix_cons_iff.mp hin with ⟨rest, hrest⟩ | hin
  · -- the digits of both end at the same brace
    have hdigits : ∀ index rest, (Nat.toDigits 10 index ++ '}' :: rest).takeWhile Char.isDigit
        = Nat.toDigits 10 index := by
      intro index rest
      rw [List.takeWhile_append_of_pos isDigit_of_mem_toDigits]
      exact List.append_nil _
    have heq : Nat.toDigits 10 index ++ '}' :: rest = Nat.toDigits 10 other ++ ['}'] := by
      simpa [mark] using hrest
    have hsame := congrArg (List.takeWhile Char.isDigit) heq
    rw [hdigits, hdigits] at hsame
    have hvalue : ∀ index, Nat.ofDigitChars 10 (Nat.toDigits 10 index) 0 = index := fun _ =>
      Nat.ofDigitChars_toDigits (by decide) (by decide)
    exact h (by rw [← hvalue index, hsame, hvalue])
  · -- no brace opens among the digits
    rcases List.mem_append.mp (hin.subset (List.mem_cons_self ..)) with hopen | hopen
    · exact absurd (isDigit_of_mem_toDigits _ hopen) (by decide)
    · exact absurd (List.mem_singleton.mp hopen) (by decide)

/-! ### Filling one after the other -/

/-- Whether a template is at its end or opens with a character that is in no mark. -/
def opensClear : Template → Bool
  | [] => true
  | .words s :: _ => s.toList.head?.any fun c => !inMark c
  | .place _ :: _ => false

/-- Whether no mark can begin in the words of a template, and none can go on behind a place. -/
def isParted : Template → Bool
  | [] => true
  | .words s :: parts => !s.toList.contains '{' && isParted parts
  | .place _ :: parts => opensClear parts && isParted parts

variable {template : Template} {arguments : List String}

theorem text_toList (template : Template) : template.text.toList = template.filled [] := by
  rw [text, String.toList_ofList, filled]
  refine List.flatMap_congr fun part _ => ?_
  cases part with
  | words s => rfl
  | place index => rfl

theorem head?_filled (h : template.opensClear = true) :
    ∀ c ∈ (template.filled arguments).head?, inMark c = false := by
  intro c hc
  cases template with
  | nil => exact absurd hc nofun
  | cons part parts =>
    cases part with
    | place index => exact absurd h nofun
    | words s =>
      rw [opensClear] at h
      cases hfirst : s.toList.head? with
      | none => rw [hfirst] at h; exact absurd h nofun
      | some first =>
        have hhead : (filled (.words s :: parts) arguments).head? = some first := by
          rw [filled, List.flatMap_cons, List.head?_append, Part.filled, hfirst, Option.some_or]
        obtain rfl := Option.some.inj (hhead.symm.trans hc)
        rw [hfirst] at h
        simpa using h

theorem not_mem_mark_of_opensClear (h : template.opensClear = true) (index : Nat) :
    ∀ c ∈ (template.filled arguments).head?, c ∉ mark index := by
  intro c hc hmem
  have hclear := head?_filled h c hc
  rw [inMark_of_mem_mark hmem] at hclear
  exact absurd hclear nofun

/-- One more argument comes in its place, and nowhere else. -/
theorem replaceAll_place (h : ∀ argument ∈ arguments, ¬ mark arguments.length <:+: argument.toList)
    (argument : String) (index : Nat) :
    replaceAll (mark arguments.length) argument.toList ((Part.place index).filled arguments)
      = (Part.place index).filled (arguments ++ [argument]) := by
  rcases Nat.lt_trichotomy index arguments.length with hlt | rfl | hgt
  · have hold : ¬ mark arguments.length <:+: arguments[index].toList := h _ (List.getElem_mem hlt)
    rw [Part.filled, Part.filled, List.getElem?_append_left hlt, List.getElem?_eq_getElem hlt]
    exact replaceAll_of_not_infix hold
  · rw [Part.filled, Part.filled, List.getElem?_concat_length,
      List.getElem?_eq_none (Nat.le_refl _)]
    exact replaceAll_self (mark_ne_nil _)
  · have hnone : (arguments ++ [argument])[index]? = none := by
      rw [List.getElem?_eq_none_iff, List.length_append]
      exact hgt
    rw [Part.filled, Part.filled, hnone, List.getElem?_eq_none (Nat.le_of_lt hgt)]
    exact replaceAll_of_not_infix (not_infix_mark (Nat.ne_of_lt hgt))

/-- Where the mark of the next argument is in none of those before it, that argument is filled in
like they were. -/
theorem replaceAll_filled (hparted : template.isParted = true)
    (h : ∀ argument ∈ arguments, ¬ mark arguments.length <:+: argument.toList) (argument : String) :
    replaceAll (mark arguments.length) argument.toList (template.filled arguments)
      = template.filled (arguments ++ [argument]) := by
  induction template with
  | nil => rfl
  | cons part parts ih =>
    have hcons : ∀ arguments, filled (part :: parts) arguments
        = part.filled arguments ++ filled parts arguments := fun _ => List.flatMap_cons
    rw [hcons, hcons]
    cases part with
    | words s =>
      obtain ⟨hwords, hparts⟩ := Bool.and_eq_true_iff.mp hparted
      -- words have no brace in them, so that nothing is filled in there
      have hbrace : '{' ∉ s.toList := by simpa using hwords
      rw [← ih hparts]
      exact replaceAll_append_of_not_mem hbrace _
    | place index =>
      obtain ⟨hclear, hparts⟩ := Bool.and_eq_true_iff.mp hparted
      -- a place is filled by itself: no mark can begin in its argument and go on behind it
      rw [replaceAll_append (mark_ne_nil _) (not_mem_mark_of_opensClear hclear _),
        replaceAll_place h, ih hparts]

/-- Arguments that are filled in one after the other come out as if they were filled in at once, if
none of them brings the mark of a later one. -/
theorem fill_eq_substitute (hparted : template.isParted = true)
    (h : ∀ later < arguments.length, ∀ index < later, ∀ argument ∈ arguments[index]?,
      ¬ mark later <:+: argument.toList) :
    template.fill arguments = template.substitute arguments := by
  have hfold : arguments.zipIdx.foldl (fun text p => replaceAll (mark p.2) p.1.toList text)
      template.text.toList = template.filled arguments := by
    -- from the end: the last argument comes into what those before it made of the template
    induction arguments using List.reverseRecOn with
    | nil => exact text_toList template
    | append_singleton arguments last ih =>
      have hfirst : ∀ index < arguments.length, ∀ argument ∈ arguments[index]?,
          argument ∈ (arguments ++ [last])[index]? := by
        intro index hindex argument hargument
        rwa [List.getElem?_append_left hindex]
      have hbefore : ∀ later < arguments.length, ∀ index < later, ∀ argument ∈ arguments[index]?,
          ¬ mark later <:+: argument.toList := by
        intro later hlater index hindex argument hargument
        refine h later ?_ index hindex argument (hfirst index (hindex.trans hlater) _ hargument)
        rw [List.length_append]
        exact hlater.trans (Nat.lt_succ_self _)
      -- the mark of the last argument is in none of those before it
      have hlast : ∀ argument ∈ arguments, ¬ mark arguments.length <:+: argument.toList := by
        intro argument hargument
        obtain ⟨index, hindex⟩ := List.getElem?_of_mem hargument
        obtain ⟨hlt, -⟩ := List.getElem?_eq_some_iff.mp hindex
        exact h arguments.length (by simp) index hlt argument (hfirst index hlt _ hindex)
      rw [List.zipIdx_append, List.foldl_append, ih hbefore]
      simpa using replaceAll_filled hparted hlast last
  exact congrArg String.ofList hfold

end Overlay.Template

namespace Overlay.Diagnostic

theorem Kind.isParted_template (kind : Kind) : kind.notice.template.isParted = true := by
  cases kind with
  | malformedSignature | unknownType | overloadAmbiguity => decide

open Template in
/-- The message of a diagnostic is the template of its kind with each argument in its place, whatever
the arguments are, if none of them shows the place of a later one. -/
theorem message_ofKind (kind : Kind) (site : Site) (arguments : List String)
    (hlength : arguments.length = kind.notice.template.arity)
    (h : ∀ later < kind.notice.template.arity, ∀ index < later, ∀ argument ∈ arguments[index]?,
      ¬ Template.mark later <:+: argument.toList) :
    (ofKind kind site arguments).message = kind.notice.template.substitute arguments ∧
      ∀ index, .place index ∈ kind.notice.template → index < arguments.length := by
  rw [← hlength] at h
  refine ⟨Template.fill_eq_substitute kind.isParted_template h, fun index hindex => ?_⟩
  rw [hlength]
  exact Template.lt_arity_of_mem hindex

/-- Arguments that show their own and earlier places, and that end and begin like a place. -/
theorem message_ofKind_marks :
    let arguments := ["\x7b0\x7d'.f\x7b", "1\x7d(x: '\x7b0\x7d\x7b1\x7d') \x7b", "2\x7d\x7b1\x7d"]
    arguments.length = (Kind.notice .overloadAmbiguity).template.arity ∧
      (ofKind .overloadAmbiguity ⟨"a.d.ts", 0⟩ arguments).message
        = "'\x7b0\x7d'.f\x7b' is declared with differing signatures; " ++
          "'1\x7d(x: '\x7b0\x7d\x7b1\x7d') \x7b' becomes overload 2\x7d\x7b1\x7d." := by
  intro arguments
  obtain ⟨hmessage, -⟩ :=
    message_ofKind .overloadAmbiguity ⟨"a.d.ts", 0⟩ arguments rfl (by decide +kernel)
  exact ⟨rfl, hmessage.trans (by decide +kernel)⟩

end Overlay.Diagnostic
