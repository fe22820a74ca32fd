import Mathlib.Data.List.Nodup
import PolicyDesk.Store

/-!
# Shelves

What can be found on a shelf, after one operation and after any number of them.
-/

namespace PolicyDesk

/-! ## What the operations of a shelf do to what can be found on it

- **Lookup** (`find?`): an accepted insertion or update puts the record under its key and keeps
  every other key as it was (`find?_of_insert`, `find?_of_update`).
- **Acceptance**: an insertion is accepted exactly when its key is free (`insert_eq_ok`), an update
  exactly when the stored record is at the revision expected (`update_eq_ok`); any other stored
  revision makes it stale (`update_stale`).
- **Order** (`Indexed`): insertions and updates keep each record under its own key, and once; so the
  records of a shelf are those that can be found on it (`Indexed.find?_of_mem`). -/

namespace Shelf

open Kept (key revision)

variable {ρ : Type}

@[simp] theorem find?_empty (k : String) : (empty : Shelf ρ).find? k = none := rfl

/-- A record added under a free key is found there, and every other key is as it was. The new record
comes last, but no other stands under its key. -/
private theorem find?_add {shelf : Shelf ρ} {k : String} (hfree : shelf.find? k = none) (r : ρ)
    (k' : String) : (⟨shelf.entries ++ [(k, r)]⟩ : Shelf ρ).find? k' =
      if k' = k then some r else shelf.find? k' := by
  by_cases hk : k' = k
  · subst hk
    have hnone : shelf.entries.find? (fun entry => entry.1 == k') = none := by
      simpa [find?] using hfree
    simp [find?, List.find?_append, hnone]
  · have hk' : ¬ k = k' := fun e => hk e.symm
    cases h : shelf.entries.find? (fun entry => entry.1 == k') <;>
      simp [find?, List.find?_append, h, hk, hk']

/-- A replacement reaches only the key that it is for. A key that is not on the shelf stays free. -/
theorem find?_replace (shelf : Shelf ρ) (k k' : String) (r : ρ) :
    (shelf.replace k r).find? k' =
      if k' = k then (shelf.find? k).map fun _ => r else shelf.find? k' := by
  obtain ⟨entries⟩ := shelf
  simp only [find?, replace]
  -- The walk of `find?` and the replacement pass the same entries; only an entry under `k` is
  -- changed.
  induction entries with
  | nil => split <;> rfl
  | cons entry rest ih =>
    obtain ⟨n, x⟩ := entry
    by_cases hk : k' = k
    · subst hk
      by_cases hn : n = k'
      · simp [hn]
      · simpa [List.find?_cons, hn] using ih
    · have hk' : ¬ k = k' := fun e => hk e.symm
      by_cases hn : n = k
      · subst hn
        simpa [List.find?_cons, hk, hk'] using ih
      · by_cases hn' : n = k'
        · simp [hn', hk]
        · simpa [List.find?_cons, hn, hn', hk] using ih

theorem mem_of_find? {shelf : Shelf ρ} {k : String} {r : ρ} (h : shelf.find? k = some r) :
    (k, r) ∈ shelf.entries := by
  obtain ⟨entry, hentry, rfl⟩ := Option.map_eq_some_iff.mp h
  have hk : entry.1 = k := by simpa using List.find?_some hentry
  rw [← hk]
  exact List.mem_of_find?_eq_some hentry

variable [Kept ρ]

/-- An insertion is accepted exactly when its key is free. -/
theorem insert_eq_ok {shelf shelf' : Shelf ρ} {r : ρ} :
    shelf.insert r = .ok shelf' ↔
      shelf.find? (key r) = none ∧ shelf' = ⟨shelf.entries ++ [(key r, r)]⟩ := by
  unfold insert
  cases shelf.find? (key r) with
  | some stored => simp
  | none => simp [eq_comm]

/-- An insertion that is refused finds its key taken. There is no other reason to refuse. -/
theorem insert_eq_error {shelf : Shelf ρ} {r : ρ} {e : StoreError} :
    shelf.insert r = .error e ↔ (shelf.find? (key r)).isSome ∧ e = .conflict := by
  unfold insert
  cases shelf.find? (key r) with
  | some stored => simp [eq_comm]
  | none => simp

theorem find?_of_insert {shelf shelf' : Shelf ρ} {r : ρ} (h : shelf.insert r = .ok shelf')
    (k : String) : shelf'.find? k = if k = key r then some r else shelf.find? k := by
  obtain ⟨hfree, rfl⟩ := insert_eq_ok.mp h
  exact find?_add hfree r k

/-- An update is accepted exactly when the stored record is at the revision expected. -/
theorem update_eq_ok {shelf shelf' : Shelf ρ} {r : ρ} {expected : UInt64} :
    shelf.update r expected = .ok shelf' ↔
      (∃ stored, shelf.find? (key r) = some stored ∧ revision stored = expected) ∧
        shelf' = shelf.replace (key r) r := by
  unfold update
  cases shelf.find? (key r) with
  | none => simp
  | some stored =>
    by_cases h : revision stored = expected
    · simp [h, eq_comm]
    · simp [h]

theorem update_missing {shelf : Shelf ρ} {r : ρ} {expected : UInt64}
    (h : shelf.find? (key r) = none) : shelf.update r expected = .error .notFound := by
  simp [update, h]

theorem update_stale {shelf : Shelf ρ} {r stored : ρ} {expected : UInt64}
    (h : shelf.find? (key r) = some stored) (hne : revision stored ≠ expected) :
    shelf.update r expected = .error .stale := by
  simp [update, h, hne]

theorem find?_of_update {shelf shelf' : Shelf ρ} {r : ρ} {expected : UInt64}
    (h : shelf.update r expected = .ok shelf') (k : String) :
    shelf'.find? k = if k = key r then some r else shelf.find? k := by
  obtain ⟨⟨stored, hs, -⟩, rfl⟩ := update_eq_ok.mp h
  rw [find?_replace, hs]
  rfl

/-! ### Order -/

/-- Each record is kept under its own key, and once. It holds of the empty shelf and is kept by
every call, so it holds of every shelf there is. -/
structure Indexed (shelf : Shelf ρ) : Prop where
  own : ∀ entry ∈ shelf.entries, entry.1 = key entry.2
  once : (shelf.entries.map (·.1)).Nodup

namespace Indexed

variable {shelf shelf' : Shelf ρ} {r : ρ}

theorem empty : (Shelf.empty : Shelf ρ).Indexed := ⟨fun _ h => (nomatch h), List.nodup_nil⟩

/-- Every record can be found. None is hidden by another, since no two have one key. -/
theorem find?_of_mem (h : shelf.Indexed) (hr : r ∈ shelf.records) :
    shelf.find? (key r) = some r := by
  obtain ⟨entry, hmem, rfl⟩ := List.mem_map.mp hr
  -- The search ends at an entry of that key, and by `once` it can only be this one.
  cases hfound : shelf.find? (key entry.2) with
  | none =>
    have hnot := List.find?_eq_none.mp (Option.map_eq_none_iff.mp hfound) entry hmem
    exact absurd (h.own entry hmem) (by simpa using hnot)
  | some other =>
    have hsame : (key entry.2, other) = entry := List.inj_on_of_nodup_map h.once
      (mem_of_find? hfound) hmem (h.own entry hmem).symm
    rw [← hsame]

theorem of_insert (h : shelf.Indexed) (hi : shelf.insert r = .ok shelf') : shelf'.Indexed := by
  obtain ⟨hfree, rfl⟩ := insert_eq_ok.mp hi
  have hnew : key r ∉ shelf.entries.map (·.1) := by
    intro hmem
    obtain ⟨entry, hentry, hk⟩ := List.mem_map.mp hmem
    have hnone : shelf.entries.find? (fun entry => entry.1 == key r) = none := by
      simpa [find?] using hfree
    simpa [hk] using List.find?_eq_none.mp hnone entry hentry
  refine ⟨fun entry hmem => ?_, ?_⟩
  · obtain hmem | hmem := List.mem_append.mp hmem
    · exact h.own entry hmem
    · rw [List.mem_singleton.mp hmem]
  · rw [List.map_append, List.map_singleton, ← List.concat_eq_append]
    exact h.once.concat hnew

theorem of_update (h : shelf.Indexed) {expected : UInt64}
    (hu : shelf.update r expected = .ok shelf') :
    shelf'.Indexed := by
  obtain ⟨-, rfl⟩ := update_eq_ok.mp hu
  -- A replacement keeps the keys in their places, so none comes up twice.
  have hkeys : (shelf.replace (key r) r).entries.map (·.1) = shelf.entries.map (·.1) := by
    simp only [replace, List.map_map]
    refine List.map_congr_left fun entry _ => ?_
    by_cases hk : entry.1 = key r <;> simp [hk]
  refine ⟨fun entry hmem => ?_, hkeys ▸ h.once⟩
  obtain ⟨old, hold, rfl⟩ := List.mem_map.mp hmem
  split
  · rfl
  · exact h.own old hold

end Indexed

end Shelf

/-! ## What writes put on a shelf

A shelf is filled by insertions and updates, accepted or not (`ofWrites`), and looked through in
some order of its keys (`Enumerates`).

- **Writes** (`Indexed.write`, `indexed_ofWrites`): no call takes a record away from its own key.
- **Enumerations**: in any order, the records are those that can be found, and they come up once
  each (`Enumerates.mem_iff`, `Enumerates.nodup`). The order of insertion is one of these orders
  (`Indexed.enumerates`). -/

namespace Shelf

open Kept (key)

variable {ρ : Type} {shelf : Shelf ρ} {r : ρ} {records : List ρ}

/-- A call that may write to a shelf. A refused call is one too; `Shelf.write` then changes nothing.
-/
inductive Write (ρ : Type)
  | insert (record : ρ)
  | update (record : ρ) (expected : UInt64)

/-- The record is on the shelf. -/
def Holds (shelf : Shelf ρ) (r : ρ) : Prop := ∃ k, shelf.find? k = some r

/-- The records of a shelf as a walk over its keys finds them: it comes to every key that is taken,
and to none twice. Nothing is said of the order, which a store may choose anew each time. -/
def Enumerates (shelf : Shelf ρ) (records : List ρ) : Prop :=
  ∃ keys : List String, keys.Nodup ∧ (∀ k, (shelf.find? k).isSome → k ∈ keys) ∧
    keys.map shelf.find? = records.map some

theorem Enumerates.mem_iff (henum : shelf.Enumerates records) : r ∈ records ↔ shelf.Holds r := by
  obtain ⟨keys, -, hall, hkeys⟩ := henum
  constructor
  · intro hr
    have hmem : some r ∈ keys.map shelf.find? := hkeys ▸ List.mem_map_of_mem hr
    obtain ⟨k, -, hk⟩ := List.mem_map.mp hmem
    exact ⟨k, hk⟩
  · rintro ⟨k, hk⟩
    have hmem : some r ∈ keys.map shelf.find? :=
      hk ▸ List.mem_map_of_mem (hall k (Option.isSome_of_mem hk))
    rw [hkeys] at hmem
    simpa using hmem

variable [Kept ρ]

/-- A call that is refused leaves the shelf as it was. -/
def write (shelf : Shelf ρ) : Write ρ → Shelf ρ
  | .insert record => (shelf.insert record).toOption.getD shelf
  | .update record expected => (shelf.update record expected).toOption.getD shelf

/-- The shelf after a sequence of calls. Every shelf that a program can come by is one of these. -/
def ofWrites (writes : List (Write ρ)) : Shelf ρ := writes.foldl write empty

namespace Indexed

theorem write (h : shelf.Indexed) (call : Write ρ) : (shelf.write call).Indexed := by
  cases call with
  | insert record =>
    show ((shelf.insert record).toOption.getD shelf).Indexed
    cases hi : shelf.insert record with
    | ok shelf' => exact h.of_insert hi
    | error e => exact h
  | update record expected =>
    show ((shelf.update record expected).toOption.getD shelf).Indexed
    cases hu : shelf.update record expected with
    | ok shelf' => exact h.of_update hu
    | error e => exact h

theorem key_of_find? (h : shelf.Indexed) {k : String} (hr : shelf.find? k = some r) :
    key r = k :=
  (h.own _ (mem_of_find? hr)).symm

/-- The order of insertion is one enumeration. -/
theorem enumerates (h : shelf.Indexed) : shelf.Enumerates shelf.records := by
  refine ⟨shelf.entries.map (·.1), h.once, fun k hk => ?_, ?_⟩
  · obtain ⟨r, hr⟩ := Option.isSome_iff_exists.mp hk
    exact List.mem_map_of_mem (mem_of_find? hr)
  · rw [Shelf.records, List.map_map, List.map_map]
    refine List.map_congr_left fun entry hentry => ?_
    have hfound := h.find?_of_mem (List.mem_map_of_mem hentry)
    rwa [← h.own entry hentry] at hfound

end Indexed

theorem indexed_ofWrites (writes : List (Write ρ)) : (ofWrites writes).Indexed :=
  List.foldlRecOn writes Shelf.write Indexed.empty fun _ h call _ => h.write call

namespace Enumerates

/-- A walk comes to the keys of the records that it finds. So the walk is known by its records
alone. -/
theorem keys_eq (h : shelf.Indexed) {keys : List String}
    (hkeys : keys.map shelf.find? = records.map some) : keys = records.map key := by
  induction keys generalizing records with
  | nil => simpa using hkeys
  | cons k keys ih =>
    obtain _ | ⟨r, records⟩ := records
    · simp at hkeys
    · rw [List.map_cons, List.map_cons, List.cons.injEq] at hkeys
      rw [List.map_cons, h.key_of_find? hkeys.1, ih hkeys.2]

theorem nodup (henum : shelf.Enumerates records) (h : shelf.Indexed) : records.Nodup := by
  obtain ⟨keys, hnodup, -, hkeys⟩ := henum
  rw [keys_eq h hkeys] at hnodup
  exact hnodup.of_map key

end Enumerates

end Shelf

end PolicyDesk
