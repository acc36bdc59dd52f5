/-
Values of JSON text, read back.

The compact text of a value is read as the draft of that value, whatever comes behind it, if its
numbers have 64 bits at most.  So no two values have the same text:

* `Json.draft`, `Json.nesting` — what is read, and how many arrays and objects are open at once;
* `Json.Readable.readsBack` — the text of a value is read as its draft, and no further;
* `Json.Readable.eq_of_render_eq` — the text of a value tells the value;
* `Json.Readable.flaw?_draft` — the draft of a value has no flaw, if there is room for it.
-/
import Overlay.Json.Reader
import Overlay.Proofs.Json.Tokens

namespace Overlay

/-- Where the image of each element tells the element, the images of a list tell the list. -/
theorem eq_of_map_eq {α β : Type} {f : α → β} {as bs : List α}
    (h : ∀ a ∈ as, ∀ b, f a = f b → a = b) (hmap : as.map f = bs.map f) : as = bs := by
  induction as generalizing bs with
  | nil => exact (List.map_eq_nil_iff.mp hmap.symm).symm
  | cons a as ih =>
    cases bs with
    | nil => exact absurd hmap (by simp)
    | cons b bs =>
      rw [List.map_cons, List.map_cons, List.cons.injEq] at hmap
      rw [h a (List.mem_cons_self ..) b hmap.1,
        ih (fun a' ha' => h a' (List.mem_cons_of_mem _ ha')) hmap.2]

namespace Json

/-! ### What is read -/

mutual

/-- The draft of a value, all of it found. -/
def draft : Json → Draft
  | null => .null
  | bool value => .bool value
  | number n => .number (.whole n)
  | string s => .string s
  | array items => .array (draftItems items) none
  | object members => .object (draftMembers members) none
termination_by structural j => j

/-- The drafts of items. -/
def draftItems : List Json → List Draft
  | [] => []
  | item :: items => item.draft :: draftItems items
termination_by structural items => items

/-- The drafts of members. -/
def draftMembers : List (String × Json) → List (Label × Draft)
  | [] => []
  | (name, value) :: members => (.name name, value.draft) :: draftMembers members
termination_by structural members => members

end

mutual

/-- How many arrays and objects are open at once, at most. -/
def nesting : Json → Nat
  | null | bool _ | number _ | string _ => 0
  | array items => nestingItems items + 1
  | object members => nestingMembers members + 1
termination_by structural j => j

/-- The same for items. -/
def nestingItems : List Json → Nat
  | [] => 0
  | item :: items => max item.nesting (nestingItems items)
termination_by structural items => items

/-- The same for the values of members. -/
def nestingMembers : List (String × Json) → Nat
  | [] => 0
  | (_, value) :: members => max value.nesting (nestingMembers members)
termination_by structural members => members

end

/-- All numbers in a value have 64 bits at most, so that they are read as what they are. -/
inductive Readable : Json → Prop
  | null : Readable .null
  | bool (value : Bool) : Readable (.bool value)
  | number {n : Nat} (h : n ≤ Literal.maxWord) : Readable (.number n)
  | string (value : String) : Readable (.string value)
  | array {items : List Json} (h : ∀ item ∈ items, Readable item) : Readable (.array items)
  | object {members : List (String × Json)} (h : ∀ member ∈ members, Readable member.2) :
    Readable (.object members)

theorem draftItems_eq_map (items : List Json) : draftItems items = items.map draft := by
  induction items with
  | nil => rfl
  | cons item items ih => rw [draftItems, ih]; rfl

theorem draftMembers_eq_map (members : List (String × Json)) :
    draftMembers members = members.map fun member => (.name member.1, member.2.draft) := by
  induction members with
  | nil => rfl
  | cons member members ih => rw [draftMembers, ih]; rfl

@[simp] theorem draft_string (value : String) : (string value).draft = .string value := rfl

@[simp] theorem draft_array (items : List Json) :
    (array items).draft = .array (items.map draft) none := by
  rw [draft, draftItems_eq_map]

@[simp] theorem draft_object (members : List (String × Json)) : (object members).draft
    = .object (members.map fun member => (.name member.1, member.2.draft)) none := by
  rw [draft, draftMembers_eq_map]

@[simp] theorem readable_bool (value : Bool) : (bool value).Readable := .bool value

@[simp] theorem readable_string (value : String) : (string value).Readable := .string value

@[simp] theorem readable_array_iff (items : List Json) :
    (array items).Readable ↔ ∀ item ∈ items, item.Readable :=
  ⟨fun | .array h => h, .array⟩

@[simp] theorem readable_object_iff (members : List (String × Json)) :
    (object members).Readable ↔ ∀ member ∈ members, member.2.Readable :=
  ⟨fun | .object h => h, .object⟩

theorem readable_optional {value? : Option Json} (h : ∀ value ∈ value?, value.Readable) :
    (optional value?).Readable := by
  cases value? with
  | none => exact .null
  | some value => exact h value rfl

/-- A word has fewer than 64 bits. -/
@[simp] theorem readable_word (n : UInt32) : (number n.toNat).Readable := by
  refine .number ?_
  have h := n.toNat_lt
  show n.toNat ≤ 2 ^ 64 - 1
  omega

theorem nestingItems_le_iff (items : List Json) (room : Nat) :
    nestingItems items ≤ room ↔ ∀ item ∈ items, item.nesting ≤ room := by
  induction items with
  | nil => simp [nestingItems]
  | cons item items ih => rw [nestingItems, Nat.max_le, ih, List.forall_mem_cons]

theorem nestingMembers_le_iff (members : List (String × Json)) (room : Nat) :
    nestingMembers members ≤ room ↔ ∀ member ∈ members, member.2.nesting ≤ room := by
  induction members with
  | nil => simp [nestingMembers]
  | cons member members ih => rw [nestingMembers, Nat.max_le, ih, List.forall_mem_cons]

/-- Where there is room for an array, there is room inside for its items. -/
theorem exists_room_array {items : List Json} {room : Nat} (h : (array items).nesting ≤ room) :
    ∃ inner, room = inner + 1 ∧ ∀ item ∈ items, item.nesting ≤ inner := by
  rw [nesting] at h
  refine ⟨room - 1, by omega, (nestingItems_le_iff items _).mp ?_⟩
  omega

/-- Where there is room for an object, there is room inside for the values of its members. -/
theorem exists_room_object {members : List (String × Json)} {room : Nat}
    (h : (object members).nesting ≤ room) :
    ∃ inner, room = inner + 1 ∧ ∀ member ∈ members, member.2.nesting ≤ inner := by
  rw [nesting] at h
  refine ⟨room - 1, by omega, (nestingMembers_le_iff members _).mp ?_⟩
  omega

/-! ### Drafts of values -/

theorem cut?_draft (j : Json) : j.draft.cut? = none := by
  cases j <;> rfl

/-- Only null is read as null. -/
theorem draft_ne_null {j : Json} (h : j ≠ null) : j.draft ≠ .null := by
  cases j <;> simp_all [draft]

/-- No two values have the same draft. -/
theorem Readable.eq_of_draft_eq {j : Json} (hj : j.Readable) :
    ∀ k : Json, j.draft = k.draft → j = k := by
  induction hj with
  | null => intro k h; cases k <;> simp_all [draft]
  | bool value => intro k h; cases k <;> simp_all [draft]
  | number hn =>
    intro k h
    cases k with
    | number m =>
      rw [draft, draft, Draft.number.injEq, Numeral.whole.injEq, Int.ofNat_inj] at h
      rw [h]
    | _ => simp [draft] at h
  | string value => intro k h; cases k <;> simp_all [draft]
  | array _ ih =>
    intro k h
    cases k with
    | array items' =>
      rw [draft_array, draft_array, Draft.array.injEq] at h
      rw [eq_of_map_eq ih h.1]
    | _ => simp [draft] at h
  | object _ ih =>
    intro k h
    cases k with
    | object members' =>
      rw [draft_object, draft_object, Draft.object.injEq] at h
      -- members are told apart by their names and, by induction, by their values
      rw [eq_of_map_eq (fun member hmember member' h => ?_) h.1]
      obtain ⟨hname, hvalue⟩ := Prod.mk.inj h
      exact Prod.ext (Label.name.inj hname) (ih member hmember member'.2 hvalue)
    | _ => simp [draft] at h

end Json

/-! ### Reading -/

/-- The text of a value is read as its draft, whatever comes behind it. -/
def Json.ReadsBack (j : Json) : Prop :=
  ∀ steps rest, j.chars.length ≤ steps → Literal.Ends rest →
    Draft.read steps (j.chars ++ rest) = (j.draft, rest)

namespace Draft

theorem skipBlanks_cons {c : Char} (h : isBlank c = false) (text : List Char) :
    skipBlanks (c :: text) = c :: text := by
  rw [skipBlanks, List.dropWhile_cons_of_neg]
  simp [h]

/-- Behind an item comes a comma or the end of the array. -/
theorem ends_moreItems (items : List Json) (rest : List Char) :
    Literal.Ends (Json.moreItems items ++ rest) := by
  cases items with
  | nil => exact Literal.ends_cons _ (by decide)
  | cons item items => exact Literal.ends_cons _ (by decide)

/-- Behind a member comes a comma or the end of the object. -/
theorem ends_moreMembers (members : List (String × Json)) (rest : List Char) :
    Literal.Ends (Json.moreMembers members ++ rest) := by
  cases members with
  | nil => exact Literal.ends_cons _ (by decide)
  | cons member members => exact Literal.ends_cons _ (by decide)

theorem readMoreItems_chars {items : List Json} (h : ∀ item ∈ items, item.ReadsBack)
    (steps : Nat) {last : Draft} (hlast : last.cut? = none) (rest : List Char)
    (hsteps : (Json.moreItems items).length ≤ steps) :
    readMoreItems steps last (Json.moreItems items ++ rest)
      = (items.map Json.draft, none, rest) := by
  induction items generalizing steps last with
  | nil =>
    obtain ⟨steps, rfl⟩ : ∃ n, steps = n + 1 :=
      ⟨steps - 1, by simp [Json.moreItems] at hsteps; omega⟩
    simp [readMoreItems, Json.moreItems, hlast, skipBlanks_cons, isBlank]
  | cons item items ih =>
    simp only [Json.moreItems, List.length_cons, List.length_append] at hsteps
    obtain ⟨steps, rfl⟩ : ∃ n, steps = n + 1 := ⟨steps - 1, by omega⟩
    -- a step goes to the comma, and the others are enough for the item and for what follows
    have hitem := h item (List.mem_cons_self ..) steps (Json.moreItems items ++ rest) (by omega)
      (ends_moreItems items rest)
    have hitems := ih (fun i hi => h i (List.mem_cons_of_mem _ hi)) steps item.cut?_draft (by omega)
    simp [readMoreItems, Json.moreItems, hlast, skipBlanks_cons, isBlank, hitem, hitems]

/-- A member of an object is read with its value. -/
theorem readMember_chars (name : String) {value : Json} (h : value.ReadsBack) (steps : Nat)
    (hsteps : value.chars.length ≤ steps) {rest : List Char} (hrest : Literal.Ends rest) :
    readMember (steps + 2) (Json.quoted name ++ ':' :: (value.chars ++ rest))
      = (.name name, value.draft, rest) := by
  have hname : Json.quoted name ++ ':' :: (value.chars ++ rest)
      = '"' :: (name.toList.flatMap Json.escape ++ '"' :: ':' :: (value.chars ++ rest)) := by
    simp [Json.quoted]
  rw [hname, readMember, skipBlanks_cons (by decide)]
  simp only [Quoted.draft_quoted, readValue]
  rw [skipBlanks_cons (by decide)]
  simp only [h steps rest hsteps hrest]

theorem readMoreMembers_chars {members : List (String × Json)}
    (h : ∀ member ∈ members, member.2.ReadsBack) (steps : Nat) {last : Draft}
    (hlast : last.cut? = none) (rest : List Char)
    (hsteps : (Json.moreMembers members).length ≤ steps) :
    readMoreMembers steps last (Json.moreMembers members ++ rest)
      = (members.map fun member => (.name member.1, member.2.draft), none, rest) := by
  induction members generalizing steps last with
  | nil =>
    obtain ⟨steps, rfl⟩ : ∃ n, steps = n + 1 :=
      ⟨steps - 1, by simp [Json.moreMembers] at hsteps; omega⟩
    simp [readMoreMembers, Json.moreMembers, hlast, skipBlanks_cons, isBlank]
  | cons member members ih =>
    obtain ⟨name, value⟩ := member
    simp only [Json.moreMembers, Json.quoted, List.length_cons, List.length_append,
      List.length_nil] at hsteps
    -- a comma, a quotation mark and a colon come before the value
    obtain ⟨steps, rfl⟩ : ∃ n, steps = n + 3 := ⟨steps - 3, by omega⟩
    have hmember := readMember_chars name (h (name, value) (List.mem_cons_self ..)) steps
      (by show value.chars.length ≤ steps; omega) (ends_moreMembers members rest)
    have hmembers := ih (fun m hm => h m (List.mem_cons_of_mem _ hm)) (steps + 2)
      value.cut?_draft (by omega)
    have htext : Json.moreMembers ((name, value) :: members) ++ rest = ',' ::
        (Json.quoted name ++ ':' :: (value.chars ++ (Json.moreMembers members ++ rest))) := by
      simp [Json.moreMembers]
    rw [htext, readMoreMembers, hlast, skipBlanks_cons (by decide)]
    simp only [hmember, hmembers, List.map_cons]

theorem isBlank_of_isDigit {c : Char} (h : c.isDigit = true) : isBlank c = false := by
  rw [← Bool.not_eq_true]
  intro hblank
  simp only [isBlank, Bool.or_eq_true, decide_eq_true_eq] at hblank
  rcases hblank with ((rfl | rfl) | rfl) | rfl <;> exact absurd h (by decide)

/-- Where a digit stands, a number is read. -/
theorem read_digit {c : Char} (h : c.isDigit = true) (steps : Nat) (text : List Char) :
    read (steps + 1) (c :: text) = Literal.draft (c :: text) := by
  -- no other value starts with a digit
  have hne : ∀ c' : Char, c'.isDigit = false → ∀ text', c :: text ≠ c' :: text' := by
    rintro c' hc' text' heq
    rw [(List.cons.inj heq).1, hc'] at h
    exact absurd h (by decide)
  rw [read, skipBlanks_cons (isBlank_of_isDigit h)]
  split
  next heq => exact absurd heq (by simp)
  next heq => exact absurd heq (hne 'n' (by decide) _)
  next heq => exact absurd heq (hne 't' (by decide) _)
  next heq => exact absurd heq (hne 'f' (by decide) _)
  next heq => exact absurd heq (hne '"' (by decide) _)
  next heq => exact absurd heq (hne '[' (by decide) _)
  next heq => exact absurd heq (hne '{' (by decide) _)
  next heq =>
    rw [← heq, ← (List.cons.inj heq).1, if_pos (.inr h)]

/-- The text of a value starts with a mark that is no blank and closes nothing. -/
theorem exists_chars (j : Json) :
    ∃ c text, j.chars = c :: text ∧ isBlank c = false ∧ c ≠ ']' := by
  cases j with
  | null => exact ⟨'n', _, rfl, by decide, by decide⟩
  | bool value => cases value <;> exact ⟨_, _, rfl, by decide, by decide⟩
  | number n =>
    obtain ⟨d, digits, hdigits, hd⟩ := Literal.exists_toDigits n
    refine ⟨d, digits, hdigits, isBlank_of_isDigit hd, ?_⟩
    rintro rfl
    exact absurd hd (by decide)
  | string s => exact ⟨'"', _, rfl, by decide, by decide⟩
  | array items => cases items <;> exact ⟨'[', _, rfl, by decide, by decide⟩
  | object members => cases members <;> exact ⟨'\x7b', _, rfl, by decide, by decide⟩

/-- Where an item stands, the items of an array are read from it on. -/
theorem readItems_chars {item : Json} {items : List Json}
    (h : ∀ i ∈ item :: items, i.ReadsBack) (steps : Nat) (rest : List Char)
    (hlength : item.chars.length ≤ steps) (hmore : (Json.moreItems items).length ≤ steps) :
    readItems (steps + 1) (item.chars ++ (Json.moreItems items ++ rest))
      = ((item :: items).map Json.draft, none, rest) := by
  have hitem := h item (List.mem_cons_self ..) steps (Json.moreItems items ++ rest) hlength
    (ends_moreItems items rest)
  have hitems := readMoreItems_chars (fun i hi => h i (List.mem_cons_of_mem _ hi)) steps
    item.cut?_draft rest hmore
  -- no value starts with a blank or with the bracket that ends an array
  obtain ⟨c, text, hchars, hblank, hclose⟩ := exists_chars item
  rw [hchars, List.cons_append] at hitem ⊢
  rw [readItems, skipBlanks_cons hblank]
  split
  next heq => exact absurd heq (by simp)
  next heq => exact absurd (List.cons.inj heq).1 hclose
  next => simp only [hitem, hitems, List.map_cons]

/-- Where a member stands, the members of an object are read from it on. -/
theorem readMembers_chars {name : String} {value : Json} {members : List (String × Json)}
    (h : ∀ member ∈ (name, value) :: members, member.2.ReadsBack) (steps : Nat) (rest : List Char)
    (hlength : value.chars.length ≤ steps) (hmore : (Json.moreMembers members).length ≤ steps) :
    readMembers (steps + 3)
        (Json.quoted name ++ ':' :: (value.chars ++ (Json.moreMembers members ++ rest)))
      = (((name, value) :: members).map fun member => (.name member.1, member.2.draft), none, rest)
      := by
  have hmember := readMember_chars name (h (name, value) (List.mem_cons_self ..)) steps
    hlength (ends_moreMembers members rest)
  have hmembers := readMoreMembers_chars (fun m hm => h m (List.mem_cons_of_mem _ hm)) (steps + 2)
    value.cut?_draft rest (by omega)
  rw [readMembers]
  -- a name starts with its quotation mark, so that no blank is skipped
  have hquote : skipBlanks
        (Json.quoted name ++ ':' :: (value.chars ++ (Json.moreMembers members ++ rest)))
      = Json.quoted name ++ ':' :: (value.chars ++ (Json.moreMembers members ++ rest)) :=
    skipBlanks_cons (by decide) _
  rw [hquote]
  split
  next heq => exact absurd (congrArg List.head? heq) (by simp [Json.quoted])
  next => simp only [hmember, hmembers, List.map_cons]

end Draft

theorem Json.length_chars_pos (j : Json) : 0 < j.chars.length := by
  obtain ⟨c, text, hchars, -⟩ := Draft.exists_chars j
  simp [hchars]

/-- There is always a step to read a value with, since its text is not empty. -/
theorem Json.ReadsBack.of_succ {j : Json}
    (h : ∀ steps rest, j.chars.length ≤ steps + 1 → Literal.Ends rest →
      Draft.read (steps + 1) (j.chars ++ rest) = (j.draft, rest)) : j.ReadsBack := by
  intro steps rest hsteps hrest
  have hpos := j.length_chars_pos
  obtain ⟨steps, rfl⟩ : ∃ n, steps = n + 1 := ⟨steps - 1, by omega⟩
  exact h steps rest hsteps hrest

/-- The text of a value is read as its draft, and no further. -/
theorem Json.Readable.readsBack {j : Json} (hj : j.Readable) : j.ReadsBack := by
  induction hj with
  | null => exact .of_succ fun steps rest _ _ => rfl
  | bool value =>
    refine .of_succ fun steps rest _ _ => ?_
    cases value <;> rfl
  | @number n hn =>
    refine .of_succ fun steps rest _ hrest => ?_
    -- a number starts with a digit
    obtain ⟨d, digits, hdigits, hd⟩ := Literal.exists_toDigits n
    rw [chars, hdigits, List.cons_append, Draft.read_digit hd, ← List.cons_append, ← hdigits,
      Literal.draft_toDigits hn hrest]
    rfl
  | string s =>
    refine .of_succ fun steps rest _ _ => ?_
    have htext : (Json.string s).chars ++ rest
        = '"' :: (s.toList.flatMap escape ++ '"' :: rest) := by
      simp [chars, quoted]
    rw [htext, Draft.read, Draft.skipBlanks_cons (by decide)]
    exact Quoted.draft_quoted s rest
  | @array items _ ih =>
    refine .of_succ fun steps rest hsteps _ => ?_
    rw [draft_array]
    cases items with
    | nil =>
      obtain ⟨steps, rfl⟩ : ∃ n, steps = n + 1 := ⟨steps - 1, by simp [chars] at hsteps; omega⟩
      rfl
    | cons item items =>
      simp only [chars, List.length_cons, List.length_append] at hsteps
      -- both the item and what comes behind it take a character at least
      have hitem := item.length_chars_pos
      have hmore : 0 < (moreItems items).length := by cases items <;> simp [moreItems]
      obtain ⟨steps, rfl⟩ : ∃ n, steps = n + 1 := ⟨steps - 1, by omega⟩
      have hitems := Draft.readItems_chars ih steps rest (by omega) (by omega)
      have htext : (Json.array (item :: items)).chars ++ rest
          = '[' :: (item.chars ++ (moreItems items ++ rest)) := by
        simp [chars]
      rw [htext, Draft.read, Draft.skipBlanks_cons (by decide)]
      simp only [hitems]
  | @object members _ ih =>
    refine .of_succ fun steps rest hsteps _ => ?_
    rw [draft_object]
    cases members with
    | nil =>
      obtain ⟨steps, rfl⟩ : ∃ n, steps = n + 1 := ⟨steps - 1, by simp [chars] at hsteps; omega⟩
      rfl
    | cons member members =>
      obtain ⟨name, value⟩ := member
      simp only [chars, quoted, List.length_cons, List.length_append, List.length_nil] at hsteps
      -- what stands behind the first member takes a character at least
      have hmore : 0 < (moreMembers members).length := by cases members <;> simp [moreMembers]
      obtain ⟨steps, rfl⟩ : ∃ n, steps = n + 3 := ⟨steps - 3, by omega⟩
      have hmembers := Draft.readMembers_chars ih steps rest (by omega) (by omega)
      have htext : (Json.object ((name, value) :: members)).chars ++ rest
          = '\x7b' :: (quoted name ++ ':' :: (value.chars ++ (moreMembers members ++ rest))) := by
        simp [chars]
      rw [htext, Draft.read, Draft.skipBlanks_cons (by decide)]
      simp only [hmembers]

/-- The whole text of a value is read as its draft. -/
theorem Json.Readable.ofText_render {j : Json} (hj : j.Readable) :
    Draft.ofText j.render = (j.draft, []) := by
  have hread := hj.readsBack (4 * j.chars.length + 8) [] (by omega) Literal.ends_nil
  rw [List.append_nil] at hread
  rw [Draft.ofText, render, String.toList_ofList]
  exact hread

/-- No two values have the same text. -/
theorem Json.Readable.eq_of_render_eq {j k : Json} (hj : j.Readable) (hk : k.Readable)
    (h : j.render = k.render) : j = k := by
  have hdrafts := hj.ofText_render
  rw [h, hk.ofText_render] at hdrafts
  exact (hk.eq_of_draft_eq j (Prod.mk.inj hdrafts).1).symm

/-! ### Room -/

/-- The draft of a value has no flaw, if there is room for it. -/
theorem Json.Readable.flaw?_draft {j : Json} (hj : j.Readable) :
    ∀ room, j.nesting ≤ room → j.draft.flaw? room = none := by
  induction hj with
  | null => intro room _; cases room <;> rfl
  | bool value => intro room _; cases room <;> rfl
  | number hn => intro room _; cases room <;> rfl
  | string s => intro room _; cases room <;> rfl
  | @array items _ ih =>
    intro room h
    -- the items have the room that the array leaves
    obtain ⟨room, rfl, hroom⟩ := exists_room_array h
    rw [draft_array, Draft.flaw?, Option.or_none, List.findSome?_eq_none_iff]
    simp only [List.mem_map, forall_exists_index, and_imp, forall_apply_eq_imp_iff₂]
    exact fun item hitem => ih item hitem room (hroom item hitem)
  | @object members _ ih =>
    intro room h
    obtain ⟨room, rfl, hroom⟩ := exists_room_object h
    rw [draft_object, Draft.flaw?, Option.or_none, List.findSome?_eq_none_iff]
    simp only [List.mem_map, forall_exists_index, and_imp, forall_apply_eq_imp_iff₂]
    exact fun member hmember => ih member hmember room (hroom member hmember)

end Overlay
