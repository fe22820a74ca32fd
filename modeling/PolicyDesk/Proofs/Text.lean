import Mathlib.Data.List.DropRight
import Mathlib.Data.String.Basic
import PolicyDesk.Text

/-!
# Texts

What trimming leaves of a text, which code a text names, and how texts are ordered.
-/

namespace PolicyDesk.Text

/-! ## What trimming leaves, and what a text names

- **Trimming** twice is trimming once (`trim_trim`), and what is trimmed is blank exactly when it
  was so before (`isBlank_trim`).
- **Names**: a text names a code when it is the code but for the blanks around it and the case of
  its ASCII letters. Of codes that differ in more than case, `ofCode?` finds the one that a text
  names (`ofCode?_eq_some`).
- **Spellings** (`Spells`): blanks around a text and the case of its ASCII letters make no
  difference to what it names (`Spells.names_iff`), and what names a code spells it
  (`spells_iff_names`). -/

theorem trimEnd_eq_rdropWhile (cs : List Char) : trimEnd cs = cs.rdropWhile isBlankChar := rfl

/-- A list that does not start with a blank still does not once its end is trimmed. -/
private theorem dropWhile_trimEnd {cs : List Char} (h : cs.dropWhile isBlankChar = cs) :
    (trimEnd cs).dropWhile isBlankChar = trimEnd cs := by
  rw [trimEnd_eq_rdropWhile]
  refine List.dropWhile_eq_self_iff.mpr fun hpos hblank => ?_
  have hprefix : cs.rdropWhile isBlankChar <+: cs := List.rdropWhile_prefix isBlankChar cs
  have hlen : 0 < cs.length := Nat.lt_of_lt_of_le hpos hprefix.length_le
  refine List.dropWhile_eq_self_iff.mp h hlen ?_
  rwa [← hprefix.getElem hpos]

theorem trimChars_trimChars (cs : List Char) : trimChars (trimChars cs) = trimChars cs := by
  have hstart : (trimChars cs).dropWhile isBlankChar = trimChars cs :=
    dropWhile_trimEnd (List.dropWhile_idempotent isBlankChar cs)
  rw [trimChars, hstart, trimChars, trimEnd_eq_rdropWhile, trimEnd_eq_rdropWhile]
  exact List.rdropWhile_idempotent isBlankChar _

@[simp] theorem toList_trim (s : String) : (trim s).toList = trimChars s.toList := by
  simp [trim]

@[simp] theorem trim_trim (s : String) : trim (trim s) = trim s := by
  rw [trim, toList_trim, trimChars_trimChars, trim]

@[simp] theorem isBlank_trim (s : String) : isBlank (trim s) = isBlank s := by
  rw [isBlank, toList_trim, trimChars_trimChars, isBlank]

theorem isBlank_eq_false_iff {s : String} : isBlank s = false ↔ trim s ≠ "" := by
  rw [← Bool.not_eq_true, isBlank_iff]

/-! ### Names -/

/-- The text is the code, whatever the blanks around it and the case of its ASCII letters. This is
what a code in a submission has to satisfy; JSON itself asks for the code letter by letter. -/
def Names (raw code : String) : Prop := sameCode code (trim raw) = true

instance (raw code : String) : Decidable (Names raw code) :=
  inferInstanceAs (Decidable (_ = true))

theorem sameCode_iff {a b : String} :
    sameCode a b = true ↔ a.toList.map Char.toLower = b.toList.map Char.toLower := by
  rw [sameCode, beq_iff_eq]

/-- Two codes that one text names differ at most in case. So where the codes of a list differ in
more, a text names one of them at most. -/
theorem Names.sameCode {raw c d : String} (hc : Names raw c) (hd : Names raw d) :
    sameCode c d = true :=
  sameCode_iff.mpr ((sameCode_iff.mp hc).trans (sameCode_iff.mp hd).symm)

/-- Codes that differ in more than case are found by their names. The order of the list plays no
part then. -/
theorem ofCode?_eq_some {α : Type} {all : List α} {code : α → String} {raw : String} {a : α}
    (hmem : ∀ b, b ∈ all) (hinj : ∀ b c, Text.sameCode (code b) (code c) = true → b = c) :
    ofCode? all code raw = some a ↔ Names raw (code a) := by
  constructor
  · exact fun h => List.find?_some (p := fun b => Text.sameCode (code b) (trim raw)) h
  · intro h
    -- The list holds `a`, so the search finds something; what it finds has the name of `a`.
    cases hf : ofCode? all code raw with
    | none => exact absurd h (List.find?_eq_none.mp hf a (hmem a))
    | some b =>
      have hb : Names raw (code b) :=
        List.find?_some (p := fun b => Text.sameCode (code b) (trim raw)) hf
      rw [hinj b a (hb.sameCode h)]

/-! ### Spellings -/

/-- The text is the other one but for blanks put around it and the case of its ASCII letters. Unlike
`Names` it says nothing of trimming: blanks are put around a text and not taken off. -/
def Spells (raw text : String) : Prop :=
  ∃ before middle after, raw.toList = before ++ middle ++ after ∧
    (∀ c ∈ before, isBlankChar c = true) ∧ (∀ c ∈ after, isBlankChar c = true) ∧
    middle.map Char.toLower = text.toList.map Char.toLower

/-- No letter is blank. The bounds take in the six marks between the cases, which are no blanks
either. -/
private theorem isBlankChar_of_letter {c : Char} (h : 65 ≤ c.toNat ∧ c.toNat ≤ 122) :
    isBlankChar c = false := by
  simp only [isBlankChar, blankRanges, List.any_cons, List.any_nil, Bool.or_false,
    Bool.or_eq_false_iff, Bool.and_eq_false_iff, decide_eq_false_iff_not]
  omega

@[simp] theorem isBlankChar_toLower (c : Char) : isBlankChar c.toLower = isBlankChar c := by
  unfold Char.toLower
  split
  · rename_i hupper
    -- Only the letters A to Z are changed, and neither case of them is blank.
    have hle : 65 ≤ c.toNat ∧ c.toNat ≤ 90 := hupper
    have hlower : (c.val + ('a'.val - 'A'.val)).toNat = (c.toNat + 32) % 2 ^ 32 :=
      UInt32.toNat_add c.val 32
    rw [isBlankChar_of_letter (c := c) (by omega), isBlankChar_of_letter]
    rw [Char.toNat, hlower]
    omega
  · rfl

theorem trimChars_map_toLower (cs : List Char) :
    trimChars (cs.map Char.toLower) = (trimChars cs).map Char.toLower := by
  have hblank : isBlankChar ∘ Char.toLower = isBlankChar := funext isBlankChar_toLower
  simp only [trimChars, trimEnd, List.dropWhile_map, hblank, ← List.map_reverse]

/-- Blanks around a text are trimmed away. What is left may begin or end with blanks of its own, and
these go too. -/
theorem trimChars_padded {before middle after : List Char}
    (hbefore : ∀ c ∈ before, isBlankChar c = true) (hafter : ∀ c ∈ after, isBlankChar c = true) :
    trimChars (before ++ middle ++ after) = trimChars middle := by
  have hend (cs : List Char) : trimEnd (cs ++ after) = trimEnd cs := by
    rw [trimEnd, List.reverse_append, List.dropWhile_append_of_pos (by simpa using hafter), trimEnd]
  rw [trimChars, List.append_assoc, List.dropWhile_append_of_pos hbefore, List.dropWhile_append,
    trimChars]
  -- If the middle is all blank, the trimming runs on into what follows it.
  split
  · rename_i hnone
    have hall : after.dropWhile isBlankChar = [] := List.dropWhile_eq_nil_iff.mpr hafter
    rw [hall, List.isEmpty_iff.mp hnone]
  · exact hend _

/-- What is trimmed away is blank. Conversely, all blanks that were put around a text are trimmed
away (`trimChars_padded`). -/
theorem exists_padding (cs : List Char) :
    ∃ before after, cs = before ++ trimChars cs ++ after ∧
      (∀ c ∈ before, isBlankChar c = true) ∧ ∀ c ∈ after, isBlankChar c = true := by
  refine ⟨cs.takeWhile isBlankChar, (cs.dropWhile isBlankChar).rtakeWhile isBlankChar, ?_,
    fun c => List.mem_takeWhile_imp, fun c => List.mem_rtakeWhile_imp⟩
  rw [trimChars, trimEnd_eq_rdropWhile, List.append_assoc, List.rdropWhile_append_rtakeWhile,
    List.takeWhile_append_dropWhile]

/-- Spellings of one text are the same but for case, once they are trimmed. Blanks are trimmed away
on both sides, so that the two texts may have different ones. -/
theorem Spells.sameCode_trim {raw text : String} (h : Spells raw text) :
    Text.sameCode (trim raw) (trim text) = true := by
  obtain ⟨before, middle, after, hraw, hbefore, hafter, hcase⟩ := h
  rw [sameCode_iff, toList_trim, toList_trim, hraw, trimChars_padded hbefore hafter,
    ← trimChars_map_toLower, hcase, trimChars_map_toLower]

/-- A spelling of a text names what the text names. -/
theorem Spells.names_iff {raw text code : String} (h : Spells raw text) :
    Names raw code ↔ Names text code := by
  have hsame := sameCode_iff.mp h.sameCode_trim
  rw [Names, Names, sameCode_iff, sameCode_iff, hsame]

theorem Spells.ofCode?_eq {raw text : String} (h : Spells raw text) {α : Type} (all : List α)
    (code : α → String) : ofCode? all code raw = ofCode? all code text := by
  have hsame : (fun a => Text.sameCode (code a) (trim raw)) =
      fun a => Text.sameCode (code a) (trim text) :=
    funext fun _ => Bool.eq_iff_iff.mpr h.names_iff
  rw [ofCode?, hsame, ofCode?]

/-- A text names a code exactly if it spells it. The code has no blanks around it, since what is
trimmed could not name it otherwise. -/
theorem spells_iff_names {raw code : String} (hcode : trim code = code) :
    Spells raw code ↔ Names raw code := by
  constructor
  · intro h
    rw [h.names_iff, Names, hcode, sameCode_refl]
  · intro h
    obtain ⟨before, after, hraw, hbefore, hafter⟩ := exists_padding raw.toList
    refine ⟨before, trimChars raw.toList, after, hraw, hbefore, hafter, ?_⟩
    rw [← toList_trim]
    exact (sameCode_iff.mp h).symm

/-! ## The bytes of a text and its order

Texts are compared character by character. In UTF-8 that is the order of their bytes: a greater
character has the greater bytes (`encode_lt`), so the first characters that differ decide in both
(`bytes_lt_iff`). -/

/-- The bytes of a text in UTF-8. -/
def bytes (s : String) : List UInt8 := s.toByteArray.data.toList

theorem bytes_eq (s : String) : bytes s = s.toList.flatMap String.utf8EncodeChar := by
  rw [bytes, ← String.utf8Encode_toList]
  simp [List.utf8Encode]

private theorem byte_lt_byte {a b : Nat} (ha : a < 256) (hb : b < 256) :
    UInt8.ofNat a < UInt8.ofNat b ↔ a < b := by
  rw [UInt8.lt_iff_toNat_lt, UInt8.toNat_ofNat', UInt8.toNat_ofNat']
  omega

private theorem byte_inj {a b : Nat} (ha : a < 256) (hb : b < 256) :
    UInt8.ofNat a = UInt8.ofNat b ↔ a = b := by
  rw [← UInt8.toNat_inj, UInt8.toNat_ofNat', UInt8.toNat_ofNat']
  omega

/-- The bytes of a greater character are greater, whatever follows. -/
theorem encode_lt {c d : Char} (h : c < d) (xs ys : List UInt8) :
    String.utf8EncodeChar c ++ xs < String.utf8EncodeChar d ++ ys := by
  have hlt : c.val.toNat < d.val.toNat := h
  have hmax : d.val.toNat < 1114112 := by
    have hvalid := d.valid
    simp only [UInt32.isValidChar, Nat.isValidChar] at hvalid
    omega
  unfold String.utf8EncodeChar
  generalize c.val.toNat = v at *
  generalize d.val.toNat = w at *
  -- Every byte carries six bits of the code point: the first group that differs decides.
  have hgroups : v / 262144 < w / 262144 ∨ v / 262144 = w / 262144 ∧ (v / 4096 < w / 4096 ∨
      v / 4096 = w / 4096 ∧ (v / 64 < w / 64 ∨ v / 64 = w / 64 ∧ v % 64 < w % 64)) := by
    omega
  have hhead (n : Nat) (hn : n < 1114112) : n / 262144 % 8 = n / 262144 :=
    Nat.mod_eq_of_lt (by omega)
  dsimp only
  rw [hhead v (by omega), hhead w (by omega)]
  repeat' split
  all_goals
    simp (disch := omega) only [List.cons_append, List.nil_append, List.cons_lt_cons_iff,
      byte_lt_byte, byte_inj]
  all_goals rcases hgroups with h | ⟨h, h | ⟨h, h | ⟨h, h⟩⟩⟩ <;> omega

private theorem flatMap_encode_lt {cs ds : List Char} (h : cs < ds) :
    cs.flatMap String.utf8EncodeChar < ds.flatMap String.utf8EncodeChar := by
  induction h with
  | @nil d ds =>
    obtain ⟨b, bs, hb⟩ := List.exists_cons_of_ne_nil (String.utf8EncodeChar_ne_nil (c := d))
    rw [List.flatMap_nil, List.flatMap_cons, hb]
    exact List.nil_lt_cons _ _
  | cons _ ih =>
    rw [List.flatMap_cons, List.flatMap_cons]
    exact List.append_left_lt ih
  | rel hcd =>
    rw [List.flatMap_cons, List.flatMap_cons]
    exact encode_lt hcd _ _

/-- Texts are in the order of their bytes. So a store that compares bytes lists the keys in the
order that is proved of texts. -/
theorem bytes_lt_iff {s t : String} : bytes s < bytes t ↔ s < t := by
  have hmono {s t : String} (h : s < t) : bytes s < bytes t := by
    rw [bytes_eq, bytes_eq]
    exact flatMap_encode_lt h
  refine ⟨fun h => ?_, hmono⟩
  -- The order of texts is total, so it is enough that bytes follow it in one direction.
  rcases lt_trichotomy s t with hst | rfl | hts
  · exact hst
  · exact absurd h (List.lt_irrefl _)
  · exact absurd h (List.lt_asymm (hmono hts))

end PolicyDesk.Text
