/-
Tagged values, read back.

A tagged value is written with its tag in front, so its variant is known when its content is read.
A choice is written as its name:

* `Tagged.decode_constant`, `Tagged.decode_carried` — a variant without content, and one with;
* `Decoder.choice_name`, `Decoder.word_draft`, `Decoder.list_draft` — choices, words and lists;
* `Fields.Reads.record` — a record, opened with the room that is left.
-/
import Overlay.Json.Tagged
import Overlay.Proofs.Json.Fields

namespace Overlay

/-! ### Plain values and lists -/

namespace Decoder

variable {α : Type}

theorem word_draft (origin : Origin) (n : UInt32) :
    word origin (Json.number n.toNat).draft = .ok n := by
  have hbound : (0 : Int) ≤ n.toNat ∧ (n.toNat : Int) < UInt32.size :=
    ⟨Int.natCast_nonneg _, Int.ofNat_lt.mpr n.toNat_lt⟩
  rw [Json.draft, word, if_pos hbound, Int.toNat_natCast]
  exact congrArg Except.ok (UInt32.ofNat_toNat)

/-- A name that is written as a string is read as the choice that it stands for. -/
theorem choice_name {choices : List (String × α)} {name : String} {value : α}
    (h : choices.lookup name = some value) (room : Nat) (origin : Origin) :
    choice choices room origin (Json.string name).draft = .ok value := by
  have hchoose : choose choices name = .ok value := by rw [choose, h]
  rw [Json.draft_string]
  cases origin <;> simp [choice, choiceInText, choiceInValue, hchoose]

/-- The list that is read from an array, opened with the room that is left. -/
theorem list_draft {decode : Nat → Decoder α} {write : α → Json} {values : List α} {room : Nat}
    {origin : Origin} (hroom : (Json.array (values.map write)).nesting ≤ room)
    (h : ∀ value ∈ values, ∀ inner, (write value).nesting ≤ inner →
      decode inner origin (write value).draft = .ok value) :
    list decode room origin (Json.array (values.map write)).draft = .ok values := by
  obtain ⟨inner, rfl, hitems⟩ := Json.exists_room_array hroom
  rw [list, Json.draft_array, List.map_map]
  exact items_map fun value hvalue => h value hvalue inner (hitems _ (List.mem_map_of_mem hvalue))

end Decoder

/-! ### Tags -/

namespace Tagged

variable {α : Type} (t : Tagged α) (room : Nat) (origin : Origin)

theorem nextPart_tag (d : Draft) (more : List (Label × Draft)) :
    t.nextPart ((.name t.tag, d) :: more) = .ok (some (.tag, d, more)) :=
  if_pos rfl

theorem nextPart_content (h : t.content ≠ t.tag) (d : Draft) (more : List (Label × Draft)) :
    t.nextPart ((.name t.content, d) :: more) = .ok (some (.content, d, more)) :=
  (if_neg h).trans (if_pos rfl)

variable {tag name : String} {value : α}

/-- A variant without content. -/
theorem decode_constant (h : t.variants.lookup tag = some (name, .constant value)) :
    t.decode room origin (Json.object [(t.tag, .string tag)]).draft = .ok value := by
  have hvariant : t.variant room origin (Json.string tag).draft = .ok (name, .constant value) :=
    Decoder.choice_name h room origin
  rw [Json.draft_object, List.map_singleton, decode, inObject, nextPart_tag]
  simp only [bind, Except.bind, hvariant]
  rfl

/-- A variant with content. -/
theorem decode_carried {decode : Decoder α} {content : Json}
    (h : t.variants.lookup tag = some (name, .carried decode)) (hnames : t.content ≠ t.tag)
    (hcontent : decode origin content.draft = .ok value) :
    t.decode room origin (Json.object [(t.tag, .string tag), (t.content, content)]).draft
      = .ok value := by
  have hvariant : t.variant room origin (Json.string tag).draft = .ok (name, .carried decode) :=
    Decoder.choice_name h room origin
  rw [Json.draft_object, List.map_cons, List.map_singleton, Tagged.decode, inObject, nextPart_tag]
  simp only [bind, Except.bind, hvariant, t.nextPart_content hnames, fill, hcontent]
  rfl

end Tagged

/-! ### Records -/

/-- The record that is read from an object, opened with the room that is left. -/
theorem Fields.Reads.record {α : Type} {fields : Nat → Fields α} {origin : Origin}
    {members : List (String × Json)} {value : α} {room : Nat} (name : String)
    (hroom : (Json.object members).nesting ≤ room)
    (h : ∀ inner, (∀ member ∈ members, member.2.nesting ≤ inner) → (fields inner).Reads origin
      (members.map fun member => (.name member.1, member.2.draft)) value) :
    Fields.record name fields room origin (Json.object members).draft = .ok value := by
  obtain ⟨inner, rfl, hmembers⟩ := Json.exists_room_object hroom
  rw [Json.draft_object]
  exact (h inner hmembers).decode ("struct " ++ name)

end Overlay
