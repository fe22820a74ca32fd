import Mathlib.Data.List.Forall2
import PolicyDesk.Json.Decode

/-!
# Decoders of what is written

A value that is written to JSON is decoded to the same value, built up from its parts.
-/

namespace PolicyDesk

/-! ## What decoders read

- **Members** (`Shape.Takes`): named members that a shape takes in one after the other.
- **Records** (`Shape.Reads`): members from which a shape makes a record. There is one rule for a
  shape without fields and two for one more field, which is there at the end (`Reads.present`) or
  missing (`Reads.missing`); a shape decodes what it reads (`Reads.decode`).
- **Lists** (`Decoder.list_eq_ok`): a list is decoded item by item. -/

namespace Shape

variable {σ α β : Type}

/-- The shape takes in the members one after the other, from one state to another. It is defined by
the members and not by the text, so nothing is said of blanks or of unknown names. -/
inductive Takes (s : Shape σ α) : List (String × Json) → σ → σ → Prop
  | nil {read : σ} : Takes s [] read read
  | cons {name : String} {json : Json} {members : List (String × Json)} {read next last : σ}
      (head : s.member name json read = some (.ok next)) (tail : Takes s members next last) :
      Takes s ((name, json) :: members) read last

/-- The shape has no field of the name. Another field may then be added under it. -/
def Lacks (s : Shape σ α) (name : String) : Prop := ∀ json read, s.member name json read = none

/-- The shape makes the record of the members. Which members were there and which were defaults is
no longer to be seen. -/
def Reads (s : Shape σ α) (members : List (String × Json)) (a : α) : Prop :=
  ∃ read, s.Takes members s.start read ∧ s.finish read = .ok a

section

variable {members : List (String × Json)} {name : String} {json : Json}

theorem Takes.foldlM {s : Shape σ α} {read last : σ} (h : s.Takes members read last) :
    (members.map fun (name, value) => (some name, value)).foldlM s.step read = .ok last := by
  induction h with
  | nil => rfl
  | cons head _ ih =>
    rw [List.map_cons, List.foldlM_cons]
    simp only [step, head]
    exact ih

theorem Takes.append_one {s : Shape σ α} {read next last : σ} (h : s.Takes members read next)
    (hlast : s.member name json next = some (.ok last)) :
    s.Takes (members ++ [(name, json)]) read last := by
  induction h with
  | nil => exact .cons hlast .nil
  | cons head _ ih => exact .cons head (ih hlast)

/-- A shape decodes the object that it reads. -/
theorem Reads.decode {s : Shape σ α} {a : α} (h : s.Reads members a) :
    s.decode (.record members) = .ok a := by
  obtain ⟨read, htakes, hfinish⟩ := h
  simp only [Json.record, Shape.decode, htakes.foldlM]
  exact hfinish

/-! ### Fields -/

@[simp] theorem lacks_of (a : α) (name : String) : (of a).Lacks name := fun _ _ => rfl

theorem Reads.of (a : α) : (Shape.of a).Reads [] a := ⟨(), .nil, rfl⟩

variable {s : Shape σ (α → β)} {absent : Except DecodeError α} {decode : Decoder α} {f : α → β}
  {a : α}

@[simp] theorem lacks_field {k : String} :
    (s.field name absent decode).Lacks k ↔ s.Lacks k ∧ k ≠ name := by
  constructor
  · intro h
    have hlacks : s.Lacks k := by
      intro json read
      have hread := h json (read, none)
      cases hmember : s.member k json read with
      | none => rfl
      | some result => simp [Shape.field, hmember] at hread
    refine ⟨hlacks, ?_⟩
    rintro rfl
    have hread := h .null (s.start, none)
    simp [Shape.field, hlacks .null s.start] at hread
  · rintro ⟨h, hne⟩ json read
    simp [Shape.field, h json read.1, hne]

/-- What a shape takes in, it takes in with one more field. The value of the new field is carried
along untouched. -/
theorem Takes.field {read last : σ} (h : s.Takes members read last) (found : Option α) :
    (s.field name absent decode).Takes members (read, found) (last, found) := by
  induction h with
  | nil => exact .nil
  | cons head _ ih => exact .cons (by simp [Shape.field, head, Except.map]) ih

/-- The last field is there. Its name must be new to the shape, or the member would go to the field
before. -/
theorem Reads.present (h : s.Reads members f) (name : String) (hname : s.Lacks name)
    (hdecode : decode json = .ok a) :
    (s.field name absent decode).Reads (members ++ [(name, json)]) (f a) := by
  obtain ⟨read, htakes, hfinish⟩ := h
  refine ⟨(read, some a), (htakes.field none).append_one ?_, ?_⟩
  · simp [Shape.field, hname json read, hdecode, Except.map]
  · simp only [Shape.field, hfinish]
    rfl

/-- The last field is missing. Its default must be a value; a required field has none. -/
theorem Reads.missing (h : s.Reads members f) (habsent : absent = .ok a) :
    (s.field name absent decode).Reads members (f a) := by
  obtain ⟨read, htakes, hfinish⟩ := h
  refine ⟨(read, none), htakes.field none, ?_⟩
  simp only [Shape.field, hfinish, habsent]
  rfl

end

end Shape

namespace Decoder

variable {α : Type}

/-- A list is decoded item by item. The first item that fails would decide, so all of them have to
be decoded. -/
theorem list_eq_ok {decode : Decoder α} {items : List Json} {as : List α}
    (h : List.Forall₂ (fun json a => decode json = .ok a) items as) :
    list decode (.arr items) = .ok as := by
  unfold list
  dsimp only
  induction h with
  | nil => rfl
  | cons head _ ih =>
    rw [List.mapM_cons, head, ih]
    rfl

end Decoder

/-! ## Reading back what is written

Each way of writing a value has a decoder that makes the value of it again.

- **Options** (`Decoder.orNull_orNull`, `Shape.Reads.member?`): a value or null, and a member that
  is written only when there is a value. Nothing is read as nothing, and a value as that value, an
  empty text or list too.
- **Lists** (`Decoder.list_map`): a list is read back when its items are.
- **Codes** (`Decoder.code_code`): a code is read back when no two values have the same.
- **Maps** (`Decoder.codeMap_record`): a map that is written as an object with a member for each
  entry is read back with all of its entries and no others. -/

namespace Decoder

section

variable {α : Type} {decode : Decoder α} {write : α → Json}

/-! ### Options and lists -/

theorem orNull_eq_some {json : Json} {a : α} (hjson : json ≠ .null) (h : decode json = .ok a) :
    orNull decode json = .ok (some a) := by
  unfold orNull
  split
  · exact absurd rfl hjson
  · rw [h]
    rfl

/-- The written value must not be null itself, or it would be read as nothing. -/
theorem orNull_orNull {found : Option α}
    (h : ∀ a, found = some a → orNull decode (write a) = .ok (some a)) :
    orNull decode (Json.orNull write found) = .ok found := by
  cases found with
  | none => rfl
  | some a => exact h a rfl

theorem list_map {as : List α} (h : ∀ a ∈ as, decode (write a) = .ok a) :
    list decode (.arr (as.map write)) = .ok as := by
  refine list_eq_ok ?_
  rw [List.forall₂_map_left_iff, List.forall₂_same]
  exact h

theorem list_ofStrings (ss : List String) : list text (.ofStrings ss) = .ok ss :=
  list_map fun _ _ => rfl

theorem orNull_ofStrings (ss : List String) :
    orNull (list text) (.ofStrings ss) = .ok (some ss) :=
  orNull_eq_some (fun h => nomatch h) (list_ofStrings ss)

end

/-! ### Codes -/

section

variable {κ : Type} {all : List κ} {code : κ → String} (hmem : ∀ k, k ∈ all)
  (hinj : ∀ j k, code j = code k → j = k)
include hmem hinj

/-- A code names its value. It is found although others may stand before it. -/
theorem find?_code (k : κ) : (all.find? fun j => code j == code k) = some k := by
  cases hfound : all.find? fun j => code j == code k with
  | none =>
    rw [List.find?_eq_none] at hfound
    exact absurd (beq_self_eq_true (code k)) (hfound k (hmem k))
  | some j =>
    have hcode : code j = code k := by simpa using List.find?_some hfound
    rw [hinj j k hcode]

/-- A value that is written as its code is read back, given that no two share one. -/
theorem code_code (k : κ) : Decoder.code all code (.str (code k)) = .ok k := by
  rw [Decoder.code, find?_code hmem hinj]
  rfl

/-! ### Maps -/

variable {α : Type} [DecidableEq κ] {decode : Decoder α} {write : α → Json}

omit hmem hinj in
/-- Of entries that are all of one map, those that are put in are what is found. -/
private theorem foldl_entries {entries : List (κ × α)} {map : κ → Option α}
    (h : ∀ entry ∈ entries, map entry.1 = some entry.2) (start : κ → Option α) (k : κ) :
    entries.foldl (fun read entry j => if j = entry.1 then some entry.2 else read j) start k =
      if k ∈ entries.map (·.1) then map k else start k := by
  induction entries generalizing start with
  | nil => rfl
  | cons entry entries ih =>
    rw [List.foldl_cons, ih fun e he => h e (List.mem_cons_of_mem entry he)]
    -- A later entry of the key wins, but it brings the same value.
    by_cases hlater : k ∈ entries.map (·.1)
    · simp [hlater]
    · by_cases hk : k = entry.1
      · subst hk
        simp [h entry List.mem_cons_self]
      · simp [hlater, hk]

/-- **Maps.** The entries of a map are read back to the map. The members may be in any order, since
no name comes up twice. -/
theorem codeMap_record {entries : List (κ × α)} {map : κ → Option α}
    (hentries : ∀ k a, (k, a) ∈ entries ↔ map k = some a)
    (h : ∀ entry ∈ entries, decode (write entry.2) = .ok entry.2) :
    codeMap all code decode (.record (entries.map fun (k, a) => (code k, write a))) = .ok map := by
  have hall : map = entries.foldl
      (fun read entry j => if j = entry.1 then some entry.2 else read j) fun _ => none := by
    funext k
    rw [foldl_entries fun entry he => (hentries _ _).mp he]
    split
    · rfl
    · rename_i hnone
      refine Option.eq_none_iff_forall_ne_some.mpr fun a ha => hnone ?_
      exact List.mem_map_of_mem ((hentries k a).mpr ha)
  rw [hall]
  simp only [codeMap, Json.record, List.map_map]
  -- From here on the map may start with anything, as the induction needs.
  clear hall hentries
  generalize (fun _ => none : κ → Option α) = start
  induction entries generalizing start with
  | nil => rfl
  | cons entry entries ih =>
    rw [List.map_cons, List.foldlM_cons]
    show (ofOption (all.find? fun j => code j == code entry.1) >>= fun key =>
      decode (write entry.2) >>= fun a =>
        Except.ok fun j => if j = key then some a else start j) >>= _ = _
    rw [find?_code hmem hinj, h entry List.mem_cons_self]
    exact ih (fun e he => h e (List.mem_cons_of_mem entry he)) _

end

end Decoder

/-! ### Members -/

namespace Shape

/-- The last field is written only when there is a value. This is the one way to leave a field out
and still have it read as nothing. -/
theorem Reads.member? {σ α β : Type} {s : Shape σ (Option α → β)} {f : Option α → β}
    {members : List (String × Json)} {decode : Decoder α} {write : α → Json}
    (h : s.Reads members f) (name : String) (hname : s.Lacks name) {found : Option α}
    (hdecode : ∀ a, found = some a → Decoder.orNull decode (write a) = .ok (some a)) :
    (s.field name (.ok none) (Decoder.orNull decode)).Reads
      (members ++ Json.member? name write found) (f found) := by
  cases found with
  | none =>
    rw [Json.member?, List.append_nil]
    exact h.missing rfl
  | some a => exact h.present name hname (hdecode a rfl)

/-- The members may be put together in another way. It spares a proof the form in which the fields
were added. -/
theorem Reads.decode_of_eq {σ α : Type} {s : Shape σ α} {a : α}
    {members members' : List (String × Json)} (h : s.Reads members a) (heq : members' = members) :
    s.decode (.record members') = .ok a :=
  heq ▸ h.decode

end Shape

end PolicyDesk
