import Mathlib.Data.Prod.Lex
import PolicyDesk.Desk
import PolicyDesk.Proofs.Store
import PolicyDesk.Proofs.Text

/-!
# The queue of files that await an underwriter

A store lists its records in an order of its own, and the queue does not show it.

- **Order** (`place`): a file has a place in a linear order, first by the date of its assessment and
  then by the bytes of its policy id. Files that are stored have the same place only if they are the
  same (`Shelf.Indexed.eq_of_place`), however many dates are equal.
- **Queue** (`pairwise_awaiting`, `awaiting_eq`): sorting leaves the files that await an underwriter
  in strictly ascending order, and there is one such list. A limit cuts it short.
-/

namespace PolicyDesk

/-- Strictly earlier. -/
def Instant.Before (a b : Instant) : Prop :=
  a.seconds < b.seconds ∨ a.seconds = b.seconds ∧ a.nanos < b.nanos

theorem Instant.le_iff {a b : Instant} :
    a ≤ b ↔ a.seconds < b.seconds ∨ a.seconds = b.seconds ∧ a.nanos ≤ b.nanos := by
  show a.le b = true ↔ _
  simp [Instant.le]

namespace UnderwritingFile

/-- An underwriter has still to decide on the file. -/
def Awaits (f : UnderwritingFile) : Prop := f.status ≠ .approved ∧ f.status ≠ .declined

instance (f : UnderwritingFile) : Decidable f.Awaits := inferInstanceAs (Decidable (_ ∧ _))

/-- Assessed earlier, or at the same instant and the policy id is smaller byte by byte. Ids are
compared by the bytes of their UTF-8 text. -/
def Precedes (f g : UnderwritingFile) : Prop :=
  f.assessment.assessmentDate.Before g.assessment.assessmentDate ∨
    f.assessment.assessmentDate = g.assessment.assessmentDate ∧
      Text.bytes f.policyId < Text.bytes g.policyId

end UnderwritingFile

/-- A list is the queue of a shelf, as far as a limit lets it go. -/
structure Shelf.Queues (shelf : Shelf UnderwritingFile) (limit : Nat)
    (queue : List UnderwritingFile) : Prop where
  length : queue.length = min limit (shelf.records.countP fun f => decide f.Awaits)
  distinct : queue.Nodup
  stored : ∀ f ∈ queue, shelf.Holds f
  awaits : ∀ f ∈ queue, f.Awaits
  ascending : queue.Pairwise UnderwritingFile.Precedes
  /-- The files that the limit leaves out come after those that it lets in. -/
  leftOut : ∀ f, shelf.Holds f → f.Awaits → f ∉ queue → ∀ g ∈ queue, g.Precedes f

/-- What the queue of a shelf is, in whatever order the records of the shelf are listed. -/
structure Shelf.HasQueue (shelf : Shelf UnderwritingFile) : Prop where
  listed : shelf.Enumerates shelf.records
  queues : ∀ files limit, shelf.Enumerates files → shelf.Queues limit (pendingFiles limit files)
  same : ∀ files others limit, shelf.Enumerates files → shelf.Enumerates others →
    pendingFiles limit files = pendingFiles limit others
  grows : ∀ files others m n, shelf.Enumerates files → shelf.Enumerates others → m ≤ n →
    pendingFiles m files <+: pendingFiles n others
  comesUp : ∀ files f, shelf.Enumerates files → shelf.Holds f →
    ((∃ enough, ∀ limit, enough ≤ limit → f ∈ pendingFiles limit files) ↔
      f.status ≠ .approved ∧ f.status ≠ .declined)
  /-- A desk answers with the queue and is left as it was. -/
  answered : ∀ (desk : Desk) (carrier : CarrierAnswer) files limit, desk.files = shelf →
    shelf.Enumerates files →
      ((Underwriting.queue (m := DeskM) limit).run.run carrier).run desk =
        (.ok (pendingFiles limit files), desk)

/-! ## Order -/

namespace UnderwritingFile

variable {f g : UnderwritingFile}

theorem awaits_iff : f.Awaits ↔ f.status.isTerminal = false := by
  unfold Awaits
  cases f.status <;> decide

/-- The place of a file in the queue. It is a tuple in lexicographic order, so that the laws of a
linear order come for free. -/
def place (f : UnderwritingFile) : Int ×ₗ Nat ×ₗ String :=
  toLex (f.assessment.assessmentDate.seconds, toLex (f.assessment.assessmentDate.nanos, f.policyId))

private theorem date_eq_iff : f.assessment.assessmentDate = g.assessment.assessmentDate ↔
    f.assessment.assessmentDate.seconds = g.assessment.assessmentDate.seconds ∧
      f.assessment.assessmentDate.nanos = g.assessment.assessmentDate.nanos := by
  cases f.assessment.assessmentDate
  cases g.assessment.assessmentDate
  simp

theorem place_lt_iff : f.place < g.place ↔ f.Precedes g := by
  unfold place Precedes Instant.Before
  rw [Prod.Lex.toLex_lt_toLex, Prod.Lex.toLex_lt_toLex, Text.bytes_lt_iff, date_eq_iff]
  tauto

/-- The comparison that the queue sorts by is that of the places. -/
theorem queuesBefore_iff : f.queuesBefore g = true ↔ f.place ≤ g.place := by
  unfold queuesBefore place
  rw [Prod.Lex.toLex_le_toLex, Prod.Lex.toLex_le_toLex]
  by_cases hdate : f.assessment.assessmentDate = g.assessment.assessmentDate
  · obtain ⟨hseconds, hnanos⟩ := date_eq_iff.mp hdate
    simp [hdate]
  · rw [if_neg hdate, decide_eq_true_iff, Instant.le_iff]
    rw [date_eq_iff] at hdate
    simp only [le_iff_lt_or_eq]
    tauto

private theorem policyId_eq_of_place (h : f.place = g.place) : f.policyId = g.policyId :=
  congrArg (fun place => (ofLex (ofLex place).2).2) h

end UnderwritingFile

/-! ## Queue -/

variable {shelf : Shelf UnderwritingFile} {files others : List UnderwritingFile}
  {f g : UnderwritingFile}

/-- A policy has one file, and a file one place. -/
theorem Shelf.Indexed.eq_of_place (h : shelf.Indexed) (hf : shelf.Holds f) (hg : shelf.Holds g)
    (hplace : f.place = g.place) : f = g := by
  obtain ⟨k, hk⟩ := hf
  obtain ⟨k', hk'⟩ := hg
  have hkeys : k = k' := by
    rw [← h.key_of_find? hk, ← h.key_of_find? hk']
    exact UnderwritingFile.policyId_eq_of_place hplace
  subst hkeys
  exact Option.some.inj (hk.symm.trans hk')

/-- All files that await an underwriter, in order. -/
def awaiting (files : List UnderwritingFile) : List UnderwritingFile :=
  (files.filter fun f => !f.status.isTerminal).mergeSort UnderwritingFile.queuesBefore

theorem pendingFiles_eq (limit : Nat) (files : List UnderwritingFile) :
    pendingFiles limit files = (awaiting files).take limit := rfl

private theorem awaiting_perm (files : List UnderwritingFile) :
    (awaiting files).Perm (files.filter fun f => decide f.Awaits) := by
  have hfilter : (files.filter fun f => !f.status.isTerminal) =
      files.filter fun f => decide f.Awaits := by
    refine List.filter_congr fun f _ => ?_
    rw [Bool.eq_iff_iff, decide_eq_true_iff, UnderwritingFile.awaits_iff, Bool.not_eq_true']
  exact hfilter ▸ List.mergeSort_perm _ _

theorem mem_awaiting : f ∈ awaiting files ↔ f ∈ files ∧ f.Awaits := by
  rw [(awaiting_perm files).mem_iff, List.mem_filter, decide_eq_true_iff]

private theorem pairwise_place_awaiting (files : List UnderwritingFile) :
    (awaiting files).Pairwise fun f g => f.place ≤ g.place := by
  have hsorted : (awaiting files).Pairwise fun f g => f.queuesBefore g = true := by
    -- The sort asks for a transitive and total comparison, and that of the places is both.
    refine List.pairwise_mergeSort (fun f g k hfg hgk => ?_) (fun f g => ?_) _
    · rw [UnderwritingFile.queuesBefore_iff] at *
      exact hfg.trans hgk
    · rw [Bool.or_eq_true, UnderwritingFile.queuesBefore_iff, UnderwritingFile.queuesBefore_iff]
      exact le_total f.place g.place
  exact hsorted.imp UnderwritingFile.queuesBefore_iff.mp

namespace Shelf.Enumerates

private theorem holds_of_mem_awaiting (hfiles : shelf.Enumerates files) (hf : f ∈ awaiting files) :
    shelf.Holds f :=
  hfiles.mem_iff.mp (mem_awaiting.mp hf).1

theorem nodup_awaiting (hfiles : shelf.Enumerates files) (h : shelf.Indexed) :
    (awaiting files).Nodup :=
  (awaiting_perm files).nodup_iff.mpr ((hfiles.nodup h).filter _)

/-- Files that are stored are never in the same place, so the order is strict. -/
theorem pairwise_awaiting (hfiles : shelf.Enumerates files) (h : shelf.Indexed) :
    (awaiting files).Pairwise UnderwritingFile.Precedes := by
  have hboth := (pairwise_place_awaiting files).and (hfiles.nodup_awaiting h)
  refine hboth.imp_of_mem fun hf hg hfg => UnderwritingFile.place_lt_iff.mp ?_
  refine lt_of_le_of_ne hfg.1 fun hplace => hfg.2 ?_
  exact h.eq_of_place (hfiles.holds_of_mem_awaiting hf) (hfiles.holds_of_mem_awaiting hg) hplace

/-- There is one list of the files that await an underwriter. -/
theorem awaiting_eq (hfiles : shelf.Enumerates files) (hothers : shelf.Enumerates others)
    (h : shelf.Indexed) : awaiting files = awaiting others := by
  have hperm : (awaiting files).Perm (awaiting others) := by
    refine (List.perm_ext_iff_of_nodup (hfiles.nodup_awaiting h) (hothers.nodup_awaiting h)).mpr
      fun f => ?_
    rw [mem_awaiting, mem_awaiting, hfiles.mem_iff, hothers.mem_iff]
  -- Two sorted lists of the same files are equal, if no two files stand in the same place.
  refine hperm.eq_of_pairwise (fun f g hf hg hfg hgf => ?_) (pairwise_place_awaiting files)
    (pairwise_place_awaiting others)
  exact h.eq_of_place (hfiles.holds_of_mem_awaiting hf) (hothers.holds_of_mem_awaiting hg)
    (le_antisymm hfg hgf)

/-- They are counted on the list that the shelf itself keeps. -/
theorem length_awaiting (hfiles : shelf.Enumerates files) (h : shelf.Indexed) :
    (awaiting files).length = shelf.records.countP fun f => decide f.Awaits := by
  rw [hfiles.awaiting_eq h.enumerates h, (awaiting_perm _).length_eq, List.countP_eq_length_filter]

theorem queues (hfiles : shelf.Enumerates files) (h : shelf.Indexed) (limit : Nat) :
    shelf.Queues limit (pendingFiles limit files) := by
  have hsorted := hfiles.pairwise_awaiting h
  rw [pendingFiles_eq]
  constructor
  case length => rw [List.length_take, hfiles.length_awaiting h]
  case distinct => exact (hfiles.nodup_awaiting h).sublist (List.take_sublist _ _)
  case stored => exact fun f hf => hfiles.holds_of_mem_awaiting (List.mem_of_mem_take hf)
  case awaits => exact fun f hf => (mem_awaiting.mp (List.mem_of_mem_take hf)).2
  case ascending => exact hsorted.sublist (List.take_sublist _ _)
  case leftOut =>
    intro f hf hawaits hout g hg
    have hmem : f ∈ (awaiting files).take limit ++ (awaiting files).drop limit := by
      rw [List.take_append_drop]
      exact mem_awaiting.mpr ⟨hfiles.mem_iff.mpr hf, hawaits⟩
    have hdrop : f ∈ (awaiting files).drop limit := (List.mem_append.mp hmem).resolve_left hout
    rw [← List.take_append_drop limit (awaiting files), List.pairwise_append] at hsorted
    exact hsorted.2.2 g hg f hdrop

/-- A file that awaits an underwriter comes up once the limit is as long as the list. -/
theorem comesUp_iff (hfiles : shelf.Enumerates files) (hf : shelf.Holds f) :
    (∃ enough, ∀ limit, enough ≤ limit → f ∈ pendingFiles limit files) ↔ f.Awaits := by
  constructor
  · rintro ⟨enough, hup⟩
    exact (mem_awaiting.mp (List.mem_of_mem_take (hup enough le_rfl))).2
  · intro hawaits
    refine ⟨(awaiting files).length, fun limit hlimit => ?_⟩
    rw [pendingFiles_eq, List.take_of_length_le hlimit]
    exact mem_awaiting.mpr ⟨hfiles.mem_iff.mpr hf, hawaits⟩

end Shelf.Enumerates

/-- After any insertions and updates, the queue of the files is exact. Nothing is asked of the
writes: those that the store refuses change nothing. -/
theorem Shelf.hasQueue (writes : List (Shelf.Write UnderwritingFile)) :
    (Shelf.ofWrites writes).HasQueue := by
  have h := Shelf.indexed_ofWrites writes
  constructor
  case listed => exact h.enumerates
  case queues => exact fun files limit hfiles => hfiles.queues h limit
  case same =>
    intro files others limit hfiles hothers
    rw [pendingFiles_eq, pendingFiles_eq, hfiles.awaiting_eq hothers h]
  case grows =>
    intro files others m n hfiles hothers hmn
    rw [pendingFiles_eq, pendingFiles_eq, hfiles.awaiting_eq hothers h]
    exact List.take_prefix_take_left hmn
  case comesUp => exact fun files f hfiles hf => hfiles.comesUp_iff hf
  case answered =>
    intro desk carrier files limit hdesk hfiles
    rw [pendingFiles_eq, hfiles.awaiting_eq h.enumerates h, ← hdesk]
    rfl

/-- A new file of a policy, assessed at the given second. -/
def newFile (policyId : PolicyId) (seconds : Int) : UnderwritingFile :=
  .ofAssessment ⟨policyId, ⟨20, by decide +kernel⟩, .low, [], "ana", ⟨seconds, 0⟩,
    by decide +kernel⟩

/-- Two files of one date stand in the order of their ids, and an approved one is gone. -/
example : (pendingFiles 2 (Shelf.ofWrites [.insert (newFile "é" 5), .insert (newFile "c" 3),
    .insert (newFile "z" 5), .insert (newFile "z" 1),
    .update { newFile "c" 3 with status := .approved, revision := 1 } 0]).records).map
      (·.policyId) = ["z", "é"] := by
  cbv

end PolicyDesk
