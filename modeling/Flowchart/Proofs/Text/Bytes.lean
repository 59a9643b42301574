import Flowchart.Text.Nesting
import Mathlib

/-!
# Places in a text

Places in a text are counted in the bytes of its encoding.  A character of ASCII is a single byte, and in no other
character is there a byte of this sort, so a text can be cut wherever such a byte stands.

* `bytes` — the bytes of a text; `bytes_injective` says that no other text has the same.
* **`getElem?_bytes_eq_some_iff`** — a byte of ASCII stands just where its character does.
* `take_bytes`, `drop_bytes` — bytes before and behind a character are those of the text there.
* `fromOffset_append` — the place of a character is found again.
-/

namespace Flowchart.Text

variable {c d : Char} {t u r before after : Text} {i : Nat}

/-- The bytes of a text in UTF-8. -/
def bytes (t : Text) : List UInt8 := t.flatMap String.utf8EncodeChar

theorem bytes_cons (c : Char) (t : Text) : bytes (c :: t) = String.utf8EncodeChar c ++ bytes t := List.flatMap_cons

theorem bytes_append (t u : Text) : bytes (t ++ u) = bytes t ++ bytes u := List.flatMap_append

theorem length_bytes (t : Text) : (bytes t).length = byteSize t := by
  induction t with
  | nil => rfl
  | cons c t ih => rw [bytes_cons, List.length_append, String.length_utf8EncodeChar, ih, byteSize]

theorem byteSize_append (t u : Text) : byteSize (t ++ u) = byteSize t + byteSize u := by
  rw [← length_bytes, bytes_append, List.length_append, length_bytes, length_bytes]

/-- Different texts have different bytes. -/
theorem bytes_injective (h : bytes t = bytes u) : t = u := by
  have hencode : t.utf8Encode = u.utf8Encode := congrArg List.toByteArray h
  exact String.ofList_injective (String.toByteArray_inj.mp hencode)

/-! ### Characters of ASCII -/

/-- A character of ASCII is a single byte. -/
theorem utf8EncodeChar_of_ascii (hc : c.toNat < 128) : String.utf8EncodeChar c = [c.toUInt8] := by
  have hvalue : c.val.toNat ≤ 127 := Nat.le_of_lt_succ hc
  unfold String.utf8EncodeChar
  rw [if_pos hvalue]
  rfl

/-- Bits of a character with a mark above them: the mark makes a byte of it that is none of ASCII. -/
theorem le_marked_byte (n : Nat) {bits mark : Nat} (hbits : 0 < bits) (hmark : 128 ≤ mark) (hfits : mark + bits ≤ 256) :
    128 ≤ (UInt8.ofNat (n % bits + mark)).toNat := by
  have hlow : n % bits < bits := Nat.mod_lt n hbits
  rw [UInt8.toNat_ofNat', Nat.mod_eq_of_lt (by omega)]
  omega

/-- All bytes of a character that is not of ASCII are marked. -/
theorem le_of_mem_utf8EncodeChar (hd : 128 ≤ d.toNat) {b : UInt8} (hb : b ∈ String.utf8EncodeChar d) : 128 ≤ b.toNat := by
  have hvalue : ¬d.val.toNat ≤ 127 := Nat.not_le_of_lt hd
  unfold String.utf8EncodeChar at hb
  dsimp only at hb
  rw [if_neg hvalue] at hb
  split at hb
  · rcases List.mem_pair.mp hb with rfl | rfl
    all_goals exact le_marked_byte _ (by decide) (by decide) (by decide)
  · split at hb
    · simp only [List.mem_cons, List.not_mem_nil, or_false] at hb
      rcases hb with rfl | rfl | rfl
      all_goals exact le_marked_byte _ (by decide) (by decide) (by decide)
    · simp only [List.mem_cons, List.not_mem_nil, or_false] at hb
      rcases hb with rfl | rfl | rfl | rfl
      all_goals exact le_marked_byte _ (by decide) (by decide) (by decide)

/-- A byte of ASCII is in no character but its own. -/
theorem eq_of_mem_utf8EncodeChar (hc : c.toNat < 128) (h : c.toUInt8 ∈ String.utf8EncodeChar d) : d = c := by
  have hbyte : ∀ {b : Char}, b.toNat < 128 → b.toUInt8.toNat = b.toNat := by
    intro b hb
    show b.val.toUInt8.toNat = b.val.toNat
    rw [UInt32.toNat_toUInt8]
    exact Nat.mod_eq_of_lt (Nat.lt_trans hb (by decide))
  by_cases hd : d.toNat < 128
  · rw [utf8EncodeChar_of_ascii hd, List.mem_singleton] at h
    have hnat : d.toNat = c.toNat := by rw [← hbyte hd, ← h, hbyte hc]
    exact Char.toNat_inj.mp hnat
  · have hle := le_of_mem_utf8EncodeChar (Nat.le_of_not_lt hd) h
    rw [hbyte hc] at hle
    exact absurd hc (Nat.not_lt_of_le hle)

/-! ### Cutting a text -/

/-- **A byte of ASCII stands just where its character does.** -/
theorem getElem?_bytes_eq_some_iff (hc : c.toNat < 128) :
    (bytes t)[i]? = some c.toUInt8 ↔ ∃ before after, t = before ++ c :: after ∧ byteSize before = i := by
  constructor
  · intro h
    induction t generalizing i with
    | nil => cases h
    | cons d t ih =>
      rw [bytes_cons] at h
      by_cases hin : i < (String.utf8EncodeChar d).length
      · rw [List.getElem?_append_left hin] at h
        obtain rfl := eq_of_mem_utf8EncodeChar hc (List.mem_of_getElem? h)
        rw [utf8EncodeChar_of_ascii hc, List.length_singleton] at hin
        exact ⟨[], t, rfl, by rw [byteSize]; omega⟩
      · rw [List.getElem?_append_right (Nat.le_of_not_lt hin)] at h
        obtain ⟨before, after, rfl, hsize⟩ := ih h
        refine ⟨d :: before, after, rfl, ?_⟩
        rw [byteSize, hsize, ← String.length_utf8EncodeChar]
        omega
  · rintro ⟨before, after, rfl, rfl⟩
    rw [bytes_append, bytes_cons, utf8EncodeChar_of_ascii hc, List.getElem?_append_right (Nat.le_of_eq (length_bytes _)),
      length_bytes, Nat.sub_self]
    rfl

theorem take_bytes (before after : Text) : (bytes (before ++ after)).take (byteSize before) = bytes before := by
  rw [bytes_append, ← length_bytes, List.take_left]

theorem drop_bytes (before after : Text) : (bytes (before ++ after)).drop (byteSize before) = bytes after := by
  rw [bytes_append, ← length_bytes, List.drop_left]

/-- The text from the place on where one text ends and the other one begins. -/
theorem fromOffset_append (start : Nat) (before r : Text) :
    fromOffset (start + byteSize before) start (before ++ r) = (start + byteSize before, r) := by
  induction before generalizing start with
  | nil => cases r <;> simp [fromOffset, byteSize]
  | cons c before ih =>
    have hpos := Char.utf8Size_pos c
    have hrest := ih (start + c.utf8Size)
    rw [Nat.add_assoc] at hrest
    rw [List.cons_append, byteSize, fromOffset, if_neg (by omega), hrest]

end Flowchart.Text
